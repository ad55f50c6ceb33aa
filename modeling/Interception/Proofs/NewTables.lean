/-
The tables that linking and patching make.

Linking makes one table.  It starts from the superclass's current table, which fits the
superclass, and what the class declares itself goes into new cells; so the new table
fits the new class, whichever of its tables the superclass has at the moment.  Patching
makes a second one, of copies only.
-/
import Interception.Proofs.Tables

namespace Interception.World

variable {β : Type} {w w' : World β} {v : VmRef} {c : ClassRef}

/-! ### New cells hold no trampolines -/

/-- No trampoline is held but by an old cell. -/
def OldTrampolines (cells cells' : Store .cell (Descriptor β)) : Prop :=
  ∀ m, (cells'.get m).isTrampoline = true → cells.Live m

theorem OldTrampolines.add {cells cells' : Store .cell (Descriptor β)}
    (h : OldTrampolines cells cells') {d : Descriptor β} (hd : d.isTrampoline = false) :
    OldTrampolines cells (cells'.add d) := by
  intro m hm
  have hlive : (cells'.add d).Live m := Store.live_of_get_ne fun hdefault => by
    rw [hdefault] at hm
    cases hm
  rcases (Store.live_add_iff _ _ m).mp hlive with hold | rfl
  · rw [Store.get_add_of_live hold] at hm
    exact h m hm
  · rw [Store.get_add_next, hd] at hm
    cases hm

theorem OldTrampolines.refl (cells : Store .cell (Descriptor β)) :
    OldTrampolines cells cells := fun _ hm => Store.live_of_get_ne fun hdefault => by
  rw [hdefault] at hm
  cases hm

theorem oldTrampolines_declareAll (number : Nat) (owner : String)
    {start : Store .cell (Descriptor β)}
    (ds : List (MethodDecl (Option β))) (l : Layout β) (h : OldTrampolines start l.cells) :
    OldTrampolines start (ds.foldl (Layout.declare number owner) l).cells := by
  induction ds generalizing l with
  | nil => exact h
  | cons d rest ih => exact ih _ (h.add (MethodDecl.isTrampoline_descriptor d number owner _))

theorem oldTrampolines_declareDirects (number : Nat) (owner : String)
    {start : Store .cell (Descriptor β)} (ds : List (MethodDecl β)) :
    ∀ (i : Nat) (cells : Store .cell (Descriptor β)), OldTrampolines start cells →
      OldTrampolines start (declareDirects number owner i ds cells).2 := by
  induction ds with
  | nil => exact fun i cells h => h
  | cons d rest ih => exact fun i cells h => ih _ _ (h.add rfl)

theorem oldTrampolines_link (w : World β) (d : ClassDecl β) (number : Nat)
    (super? : Option ClassRef) :
    OldTrampolines w.cells (w.link d number super?).2.cells := by
  cases super? with
  | none =>
    refine oldTrampolines_declareDirects number d.name d.directs 0 _ ?_
    exact oldTrampolines_declareAll number d.name d.virtuals _ (.refl _)
  | some s =>
    refine oldTrampolines_declareDirects number d.name d.directs 0 _ ?_
    exact oldTrampolines_declareAll number d.name d.virtuals _ (.refl _)

/-! ### Linking -/

theorem tends_of_extends {n : Nat} (h : Extends n w w')
    (hres : ∀ {g i r}, w'.Resolves g i r → w.Resolves g i r) : w.Tends w' where
  grows := h.grows
  slots m hm := by rw [h.content hm]
  plain m hm _ := h.content hm
  copies _ hr _ := hres hr

theorem declaration?_cons {name : String} : w.declaration? c name =
    ((lastNamed (w.classes.get c).declared name).map (c, ·)).or
      ((w.ancestors c).findSome? fun a =>
        (lastNamed (w.classes.get a).declared name).map (a, ·)) := by
  rw [declaration?, lineage_eq, List.findSome?_cons]
  cases lastNamed (w.classes.get c).declared name <;> rfl

section Link

variable {d : ClassDecl β} {number : Nat} {super? : Option ClassRef} {s : ClassRef}

namespace Links

/-- What the new class does not declare it has from its superclass. -/
theorem declaration?_inherited (h : Links w w' d number (some s)) (hg : w.Grows w')
    (hl : w.Lineages) (hs : w.classes.Live s) {name : String}
    (hnone : lastNamed d.virtuals name = none) :
    w'.declaration? w.classes.next name = w.declaration? s name := by
  rw [declaration?_cons, h.new.declared, hnone, h.ancestors_new, ← hg.declaration? hl hs name,
    declaration?, hg.lineage hs]
  rfl

theorem declared?_inherited (h : Links w w' d number (some s)) (hg : w.Grows w')
    (hl : w.Lineages) (hs : w.classes.Live s) {name : String} {k : Nat}
    (hnone : lastNamed d.virtuals name = none) :
    w'.declared? w.classes.next name k = w.declared? s name k := by
  rw [← hg.declared? hl hs, declared?, h.declaration?_inherited hg hl hs hnone,
    ← hg.declaration? hl hs, declared?]

theorem declared?_own (h : Links w w' d number super?) {name : String} {k : Nat}
    {x : MethodDecl (Option β)} (hx : lastNamed d.virtuals name = some x) :
    w'.declared? w.classes.next name k = some (x.descriptor number d.name k) := by
  rw [declared?, declaration?_cons, h.new.declared, hx]
  show some (x.descriptor (w'.classes.get w.classes.next).number
    (w'.className w.classes.next) k) = _
  rw [h.new.position, className, h.new.name]

end Links

/-- Where a position of a new class's table has its cell from. -/
inductive Supplied (w w' : World β) (d : ClassDecl β) (number : Nat) (super? : Option ClassRef)
    (k : Nat) (m : CellRef) (name : String) : Prop
  /-- The class declares the method itself, in a new cell. -/
  | own {x : MethodDecl (Option β)} (declares : lastNamed d.virtuals name = some x)
      (fresh : ¬ w.cells.Live m) (live : w'.cells.Live m)
      (content : w'.content m = x.descriptor number d.name k)
  /-- The superclass has the cell in the same slot. -/
  | above {s : ClassRef} (silent : lastNamed d.virtuals name = none) (super : super? = some s)
      (cell : (w.tableOf s)[k]? = some m) (slot : w.slotOf s name = some k)

theorem supplied_link (hordered : (w.inherited super?).Ordered) {k : Nat} {m : CellRef}
    {name : String} (hk : (w.laidOut d number super?).table[k]? = some m)
    (hname : (w.laidOut d number super?).slots.lookup name = some k) :
    Supplied w (w.link d number super?).2 d number super? k m name := by
  have hlaid := laid_laidOut d number hordered
  have hkeeps := keeps_link w d number super?
  have hcells : (w.inherited super?).cells = w.cells := by cases super? <;> rfl
  cases hlast : lastNamed d.virtuals name with
  | some x =>
    obtain ⟨m', hm', hlive, hfresh, hget⟩ := hlaid.fresh hname hlast
    rw [hk] at hm'
    cases hm'
    rw [hcells] at hfresh
    exact .own hlast hfresh (hkeeps m hlive).1 ((hkeeps m hlive).2.trans hget)
  | none =>
    obtain ⟨hstart, hsame⟩ := hlaid.inherited hname hlast
    rw [hk] at hsame
    cases super? with
    | none => cases hstart
    | some s => exact .above hlast rfl hsame.symm hstart

/-- A cell of the new table that is a copy is the superclass's. -/
theorem Supplied.of_live {k : Nat} {m : CellRef} {name : String}
    (h : Supplied w w' d number super? k m name) (hm : w.cells.Live m) :
    ∃ s, super? = some s ∧ lastNamed d.virtuals name = none ∧ (w.tableOf s)[k]? = some m ∧
      w.slotOf s name = some k := by
  cases h with
  | own declares fresh live content => exact absurd hm fresh
  | above silent super cell slot => exact ⟨_, super, silent, cell, slot⟩

variable (d number super?) in
theorem table_link_next : (w.link d number super?).2.tables.get w.tables.next =
    (w.laidOut d number super?).table := by
  rw [tables_link, Store.get_add_next]

end Link

/-- What a new class has in common with the class it was linked below. -/
theorem fits_link (ht : w.Tabled) (hl : w.Lineages) (d : ClassDecl β) (number : Nat)
    {super? : Option ClassRef} (hsuper : ∀ s, super? = some s → w.classes.Live s)
    (hordered : (w.inherited super?).Ordered) :
    (w.link d number super?).2.Fits w.classes.next w.tables.next := by
  have hlaid := laid_laidOut d number hordered
  have hlinks := links_link w d number super?
  have hext := extends_link 0 w d number super?
  have htable := table_link_next (w := w) d number super?
  have hlive : (w.link d number super?).2.tables.Live w.tables.next := by
    rw [tables_link]
    exact Store.live_next_add _ _
  have hsupplied : ∀ {k : Nat} {m : CellRef} {name : String},
      (w.laidOut d number super?).table[k]? = some m →
      (w.laidOut d number super?).slots.lookup name = some k →
      Supplied w (w.link d number super?).2 d number super? k m name :=
    supplied_link hordered
  have hres : ∀ {g i r}, (w.link d number super?).2.Resolves g i r → w.Resolves g i r :=
    fun hr => hr
  generalize (w.link d number super?).2 = w' at hlinks hext htable hlive hsupplied hres ⊢
  have hg := hext.grows
  have hnamed : ∀ {k : Nat} {m : CellRef}, (w.laidOut d number super?).table[k]? = some m →
      ∃ name, (w.laidOut d number super?).slots.lookup name = some k := fun hk =>
    hlaid.named (List.getElem?_eq_some_iff.mp hk).1
  exact
    { live := hlive
      lt := fun {name k} hk => by
        rw [hlinks.slotOf_new] at hk
        rw [htable]
        exact hlaid.lt hk
      named := fun {k} hk => by
        rw [htable] at hk
        obtain ⟨name, hname⟩ := hlaid.named hk
        exact ⟨name, (hlinks.slotOf_new name).trans hname⟩
      cells := fun {k m} hk => by
        rw [htable] at hk
        obtain ⟨name, hname⟩ := hnamed hk
        cases hsupplied hk hname with
        | own declares fresh live content => exact ⟨live, congrArg Descriptor.slot content⟩
        | above silent super cell slot =>
          obtain ⟨hm, hslot⟩ := (ht.current _ (hsuper _ super)).cells cell
          exact ⟨hg.cells m hm, (congrArg Descriptor.slot (hext.content hm)).trans hslot⟩
      -- A copy was there before, so the new class can only have it from its superclass.
      copies := fun {k m g i r j} hk hr hj => by
        rw [htable] at hk
        rw [hg.table_intercepted ht (hres hr)] at hj
        obtain ⟨name, hname⟩ := hnamed hk
        have hold : w.cells.Live m := ((ht.intercepted (hres hr)).cells hj).1
        obtain ⟨s, rfl, -, hsk, -⟩ := (hsupplied hk hname).of_live hold
        obtain ⟨hmem, hjk⟩ := (ht.current s (hsuper s rfl)).copies hsk (hres hr) hj
        refine ⟨?_, hjk⟩
        rw [lineage_eq, hlinks.ancestors_new]
        exact List.mem_cons_of_mem _ hmem
      stems := fun {k m g i r j name} hk hr hj hname => by
        rw [htable] at hk
        rw [hlinks.slotOf_new] at hname
        rw [hg.table_intercepted ht (hres hr)] at hj
        have hold : w.cells.Live m := ((ht.intercepted (hres hr)).cells hj).1
        obtain ⟨s, rfl, hnone, hsk, hsname⟩ := (hsupplied hk hname).of_live hold
        have hfits := ht.current s (hsuper s rfl)
        have hcls := hl.live_of_mem_lineage (hsuper s rfl) (hfits.copies hsk (hres hr) hj).1
        rw [hlinks.declaration?_inherited hg hl (hsuper s rfl) hnone, hg.declaration? hl hcls]
        exact hfits.stems hsk (hres hr) hj hsname
      plain := fun {k m name} hk hm hname => by
        rw [htable] at hk
        rw [hlinks.slotOf_new] at hname
        cases hsupplied hk hname with
        | own declares fresh live content => rw [hlinks.declared?_own declares, content]
        | @above s silent super cell slot =>
          subst super
          have hold := ((ht.current s (hsuper s rfl)).cells cell).1
          have hplain : ¬ w.Copied m := fun hcopied => hm (hcopied.of_grows ht hg)
          rw [hlinks.declared?_inherited hg hl (hsuper s rfl) silent, hext.content hold]
          exact (ht.current s (hsuper s rfl)).plain cell hplain slot }

/-- Linking keeps tables right. -/
theorem Tabled.link (h : w.Tabled) (hl : w.Lineages) (ho : w.Orderly) (d : ClassDecl β)
    (number : Nat) {super? : Option ClassRef} (hsuper : ∀ s, super? = some s → w.classes.Live s)
    (hordered : (w.inherited super?).Ordered) : (w.link d number super?).2.Tabled := by
  have hfits := fits_link h hl d number hsuper hordered
  have hext := extends_link 0 w d number super?
  have hres : ∀ {g i r}, (w.link d number super?).2.Resolves g i r → w.Resolves g i r :=
    fun hr => hr
  have htends := tends_of_extends hext hres
  exact
    { current := fun a ha => by
        rcases (live_link_iff w d number super? a).mp ha with ha | rfl
        · rw [get_link_of_ne w d number super? ha.ne_next]
          exact (h.current a ha).of_tends h hl ha htends
        · rw [(get_link_next w d number super?).table]
          exact hfits
      intercepted := fun hr => (h.intercepted (hres hr)).of_tends h hl (ho.live (hres hr)) htends
      unpatched := fun hr => (h.unpatched (hres hr)).of_tends h hl (ho.live (hres hr)) htends
      apart := fun hr hm => by
        rw [hext.grows.table_unpatched h (hres hr)] at hm
        rw [hext.grows.table_intercepted h (hres hr)]
        exact h.apart (hres hr) hm
      copied := fun {m} hm => by
        have hlive := oldTrampolines_link w d number super? m hm
        rw [hext.content hlive] at hm
        exact (h.copied hm).of_grows h hext.grows }

/-- The current table of a class is a place to start from. -/
theorem Tabled.ordered (h : w.Tabled) (hl : w.Lineages) {s : ClassRef} (hs : w.classes.Live s) :
    (w.inherited (some s)).Ordered :=
  hl.ordered_slots (h.current s hs).lt (h.current s hs).named

theorem Tabled.bareMachine (h : w.Tabled) (hl : w.Lineages) (ho : w.Orderly)
    (options : VmOptions) (core : Core) : (w.bareMachine options core).Tabled := by
  have hroot : w.rootLinked.Tabled :=
    h.link hl ho _ 0 (fun s hs => by cases hs) (ordered_nothing w.cells)
  have hrootLineages : w.rootLinked.Lineages :=
    hl.link _ 0 (fun s hs => by cases hs) (ordered_nothing w.cells)
  have hrootOrderly : w.rootLinked.Orderly := ho.link _ 0 none
  let proxyDecl : ClassDecl β :=
    { name := proxyClassName, fields := [⟨handlerFieldName, handlerFieldType⟩] }
  have hproxy := hroot.link hrootLineages hrootOrderly proxyDecl 1 w.live_rootLinked
    w.ordered_rootLinked
  exact hproxy.of_turns (hrootLineages.link proxyDecl 1 w.live_rootLinked w.ordered_rootLinked)
    (hrootOrderly.link proxyDecl 1 _)
    (turns_of_classes (extends_addVm 0 _ _).grows rfl (fun _ hc => ⟨hc, rfl⟩) fun hr => hr)

/-! ### Patching -/

section Patch

variable {g : RegistryRef} {i : Nat} {handler : ClassRef} {offset : Nat}

/-- What patching the class fills in. -/
def patchOf (w : World β) (c handler : ClassRef) (offset : Nat) : Resolution :=
  ⟨c, handler, offset, w.tables.next, (w.classes.get c).table⟩

theorem entry_patchOf (hg : w.registries.Live g)
    (hi : i < (w.registries.get g).entries.size) (hnone : (w.entry g i).resolution = none) :
    (w.installTrampolines g i c handler offset).entry g i =
      { w.entry g i with resolution := some (w.patchOf c handler offset) } := by
  rw [entry_installTrampolines, entry_modifyEntry_self w g i _ hg hi, Entry.resolve, hnone]
  rfl

theorem resolves_patchOf (hg : w.registries.Live g)
    (hi : i < (w.registries.get g).entries.size) (hnone : (w.entry g i).resolution = none) :
    (w.installTrampolines g i c handler offset).Resolves g i (w.patchOf c handler offset) :=
  congrArg Entry.resolution (entry_patchOf hg hi hnone)

/-- The cells of the new table, as references. -/
theorem installed_getElem? {k : Nat} {m : CellRef} :
    ((w.installTrampolines g i c handler offset).tables.get w.tables.next)[k]? = some m ↔
      k < (w.tableOf c).length ∧ m = ⟨w.cells.size + k⟩ := by
  have htable : (w.installTrampolines g i c handler offset).tables.get w.tables.next =
      (copyTable (w.entry g i).row w.cells (w.tableOf c)).1 := Store.get_add_next _ _
  rw [htable]
  constructor
  · intro hk
    have hlt : k < (w.tableOf c).length := by
      rw [← length_copyTable (w.entry g i).row (w.tableOf c) w.cells]
      exact (List.getElem?_eq_some_iff.mp hk).1
    rw [copyTable_getElem? _ _ _ _ hlt] at hk
    exact ⟨hlt, (Option.some.inj hk).symm⟩
  · rintro ⟨hlt, rfl⟩
    exact copyTable_getElem? _ _ _ _ hlt

/-- What a copy holds right after patching. -/
theorem content_copy (hlive : ∀ m ∈ w.tableOf c, w.cells.Live m) {k : Nat} {o : CellRef}
    (hk : (w.tableOf c)[k]? = some o) :
    (w.installTrampolines g i c handler offset).content ⟨w.cells.size + k⟩ =
      (w.entry g i).row.copyOf (w.content o) o :=
  get_copyTable _ _ _ _ _ hk hlive

theorem live_installed {m : CellRef} :
    (w.installTrampolines g i c handler offset).cells.Live m ↔
      w.cells.Live m ∨ ∃ k, k < (w.tableOf c).length ∧ m = ⟨w.cells.size + k⟩ := by
  have hsize : (w.installTrampolines g i c handler offset).cells.size =
      w.cells.size + (w.tableOf c).length := size_copyTable _ _ _
  rw [Store.Live, hsize, Store.Live]
  constructor
  · intro hm
    by_cases hold : m.index < w.cells.size
    · exact Or.inl hold
    · refine Or.inr ⟨m.index - w.cells.size, by omega, Ref.ext_index ?_⟩
      show m.index = w.cells.size + (m.index - w.cells.size)
      omega
  · rintro (hm | ⟨k, hk, rfl⟩)
    · omega
    · show w.cells.size + k < _
      omega

theorem tends_installTrampolines (w : World β) (g : RegistryRef) (i : Nat)
    (c handler : ClassRef) (offset : Nat) :
    w.Tends (w.installTrampolines g i c handler offset) := by
  have hext := extends_installTrampolines w g i handler offset (Nat.zero_le c.index)
  exact
    { grows := hext.grows
      slots := fun m hm => by rw [hext.content hm]
      plain := fun m hm _ => hext.content hm
      copies := fun {g' j r k m} hm hr hk => by
        rcases resolves_installTrampolines hr with hr | ⟨-, -, rfl⟩
        · exact hr
        · obtain ⟨-, rfl⟩ := installed_getElem?.mp hk
          have hlt : w.cells.size + k < w.cells.size := hm
          omega }

/-- The new table fits the class. -/
theorem fits_installed (ht : w.Tabled) (hc : w.classes.Live c)
    (hr : (w.installTrampolines g i c handler offset).Resolves g i (w.patchOf c handler offset)) :
    (w.installTrampolines g i c handler offset).Fits c w.tables.next := by
  have hfits := ht.current c hc
  have hlive : ∀ m ∈ w.tableOf c, w.cells.Live m := fun m hm => by
    obtain ⟨k, hk⟩ := List.mem_iff_getElem?.mp hm
    exact (hfits.cells hk).1
  have hg := (extends_installTrampolines w g i handler offset (Nat.zero_le c.index)).grows
  have hslot : ∀ name, (w.installTrampolines g i c handler offset).slotOf c name =
      w.slotOf c name := fun name => (hg.classes c hc).2.slotOf name
  have hlength : ((w.installTrampolines g i c handler offset).tables.get w.tables.next).length =
      (w.tableOf c).length := by
    rw [show (w.installTrampolines g i c handler offset).tables.get w.tables.next =
      (copyTable (w.entry g i).row w.cells (w.tableOf c)).1 from Store.get_add_next _ _]
    exact length_copyTable _ _ _
  exact
    { live := Store.live_next_add _ _
      lt := fun hk => by
        rw [hslot] at hk
        rw [hlength]
        exact hfits.lt hk
      named := fun hk => by
        rw [hlength] at hk
        obtain ⟨name, hname⟩ := hfits.named hk
        exact ⟨name, (hslot name).trans hname⟩
      cells := fun {k m} hk => by
        obtain ⟨hlt, rfl⟩ := installed_getElem?.mp hk
        refine ⟨live_installed.mpr (Or.inr ⟨k, hlt, rfl⟩), ?_⟩
        have hold : (w.tableOf c)[k]? = some (w.tableOf c)[k] := List.getElem?_eq_getElem hlt
        rw [content_copy hlive hold, Row.slot_copyOf]
        exact (hfits.cells hold).2
      copies := fun {k m g' j r l} hk hr' hl' => by
        obtain ⟨hlt, rfl⟩ := installed_getElem?.mp hk
        rcases resolves_installTrampolines hr' with hold | ⟨-, -, rfl⟩
        · -- What was copied before is not a new cell.
          rw [hg.table_intercepted ht hold] at hl'
          have hlt' : w.cells.size + k < w.cells.size := ((ht.intercepted hold).cells hl').1
          omega
        · obtain ⟨-, heq⟩ := installed_getElem?.mp hl'
          have hindex : w.cells.size + k = w.cells.size + l := congrArg Ref.index heq
          exact ⟨World.mem_lineage_self _ c, by omega⟩
      stems := fun {k m g' j r l name} hk hr' hl' _ => by
        obtain ⟨hlt, rfl⟩ := installed_getElem?.mp hk
        rcases resolves_installTrampolines hr' with hold | ⟨-, -, rfl⟩
        · rw [hg.table_intercepted ht hold] at hl'
          have hlt' : w.cells.size + k < w.cells.size := ((ht.intercepted hold).cells hl').1
          omega
        · rfl
      plain := fun {k m name} hk hm _ => by
        exact absurd ⟨g, i, _, k, hr, hk⟩ hm }

/-- Patching a class under its own entry keeps tables right. -/
theorem Tabled.installTrampolines (h : w.Tabled) (hl : w.Lineages) (ho : w.Orderly)
    (hc : w.classes.Live c)
    (hr : (w.installTrampolines g i c handler offset).Resolves g i (w.patchOf c handler offset)) :
    (w.installTrampolines g i c handler offset).Tabled := by
  have htends := tends_installTrampolines w g i c handler offset
  have hnew := fits_installed h hc hr
  have hext := extends_installTrampolines w g i handler offset (Nat.zero_le c.index)
  have hold : ∀ a, (w.installTrampolines g i c handler offset).classes.Live a →
      w.classes.Live a := fun a ha => (Store.live_modify ..).mp ha
  have hcopies : ∀ {k : Nat}, k < (w.tableOf c).length →
      (w.installTrampolines g i c handler offset).Copied ⟨w.cells.size + k⟩ := fun hk =>
    ⟨g, i, _, _, hr, installed_getElem?.mpr ⟨hk, rfl⟩⟩
  exact
    { current := fun a ha => by
        by_cases hac : a = c
        · subst hac
          rw [show ((w.installTrampolines g i a handler offset).classes.get a).table =
            w.tables.next from congrArg Class.table (Store.get_modify_self hc _)]
          exact hnew
        · rw [show (w.installTrampolines g i c handler offset).classes.get a =
            w.classes.get a from Store.get_modify_of_ne hac _]
          exact (h.current a (hold a ha)).of_tends h hl (hold a ha) htends
      intercepted := fun hr' => by
        rcases resolves_installTrampolines hr' with hr' | ⟨-, -, rfl⟩
        · exact (h.intercepted hr').of_tends h hl (ho.live hr') htends
        · exact hnew
      unpatched := fun hr' => by
        rcases resolves_installTrampolines hr' with hr' | ⟨-, -, rfl⟩
        · exact (h.unpatched hr').of_tends h hl (ho.live hr') htends
        · exact (h.current c hc).of_tends h hl hc htends
      apart := fun {g' j r m} hr' hm hm' => by
        rcases resolves_installTrampolines hr' with hr' | ⟨-, -, rfl⟩
        · rw [hext.grows.table_unpatched h hr'] at hm
          rw [hext.grows.table_intercepted h hr'] at hm'
          exact h.apart hr' hm hm'
        · rw [(hext.grows.tables _ (h.current c hc).live).2] at hm
          obtain ⟨k, hk⟩ := List.mem_iff_getElem?.mp hm
          obtain ⟨l, hl'⟩ := List.mem_iff_getElem?.mp hm'
          obtain ⟨-, rfl⟩ := installed_getElem?.mp hl'
          have hlt : w.cells.size + l < w.cells.size := ((h.current c hc).cells hk).1
          omega
      copied := fun {m} hm => by
        have hlive : (w.installTrampolines g i c handler offset).cells.Live m :=
          Store.live_of_get_ne fun hdefault => by
            rw [show (w.installTrampolines g i c handler offset).content m = default from
              hdefault] at hm
            cases hm
        rcases live_installed.mp hlive with hlive | ⟨k, hk, rfl⟩
        · rw [hext.content hlive] at hm
          exact (h.copied hm).of_grows h hext.grows
        · exact hcopies hk }

end Patch

theorem turns_initialized (x : World β) (c : ClassRef) :
    x.Turns { x with classes := x.classes.modify c fun k => { k with initialized := true } } := by
  have hext := extends_modifyClass x (Nat.zero_le c.index)
    (fun k => { k with initialized := true })
    fun _ => ⟨rfl, rfl, rfl, rfl, rfl, rfl, rfl, fun _ => rfl⟩
  refine turns_of_classes hext.grows rfl (fun a ha => ⟨(Store.live_modify ..).mp ha, ?_⟩)
    fun hr => hr
  exact Store.part_get_modify Class.table (f := fun k => { k with initialized := true })
    (fun _ => rfl) x.classes c a

theorem Tabled.patch (h : w.Tabled) (hl : w.Lineages) (ho : w.Orderly)
    (hc : w.classes.Live c) (core : Core) :
    (w.patch v core c).2.Tabled ∧ w.Tends (w.patch v core c).2 := by
  have hp := patches_patch w v core c
  generalize (w.patch v core c).2 = x at hp ⊢
  cases hp with
  | nothing => exact ⟨h, .refl w⟩
  | installs hi hnone _ _ =>
    exact ⟨h.installTrampolines hl ho hc
      (resolves_patchOf (Orderly.registry_live hi) (ho.lt_size hi) hnone),
      tends_installTrampolines w _ _ _ _ _⟩

theorem Tabled.enroll (h : w.Tabled) (hl : w.Lineages) (ho : w.Orderly)
    (hn : w.Newcomer v c) : (w.enroll v c).Tabled ∧ w.Tends (w.enroll v c) := by
  obtain ⟨hpatched, htends⟩ := h.patch hl ho hn.live (v := v) (w.coreOf v)
  have ho' := ho.patch v (w.coreOf v) hn.live hn.unbound
  have hsame : w.SameClasses (w.patch v (w.coreOf v) c).2 :=
    .of_grows (extends_patch w v (w.coreOf v) (Nat.zero_le c.index)).grows (size_patch ..)
  have hl' := hl.of_sameClasses hsame
  have hinit : w.enroll v c = ({ (w.patch v (w.coreOf v) c).2 with
      classes := (w.patch v (w.coreOf v) c).2.classes.modify c fun k =>
        { k with initialized := true } } : World β).publish v c := rfl
  rw [hinit]
  generalize (w.patch v (w.coreOf v) c).2 = x at hpatched htends ho' hl' ⊢
  have hturns := (turns_initialized x c).trans (turns_publish _ v c) hpatched
  exact ⟨hpatched.of_turns hl' ho' hturns, htends.trans hturns.tends h hpatched⟩

end Interception.World
