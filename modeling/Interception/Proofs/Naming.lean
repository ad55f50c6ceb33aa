/-
The names of cells.

A cell that is no copy holds what is declared for its position, and with it the position's
name.  A copy gets its name from the cell it is a copy of, and keeps it although windows write
into it: what a window writes is what the receiver's patched class has in the slot that the
trampoline names.  That slot is the slot of the trampoline's own name in the receiver's class
if the trampoline was found in a table of the receiver's, if it is what such a trampoline stands
for, or if it is a handle that passed the receiver check and all numbers are of one machine's
classes.  Only a cell that is run unchecked can be anything else.

So on one machine, and where no cell is run unchecked, every cell keeps its name for as long
as the machine runs.
-/
import Interception.Proofs.Sealing

namespace Interception

variable {β H : Type}

namespace World

variable {w w' : World β} {v : VmRef} {a c : ClassRef} {g : RegistryRef} {i k : Nat}
  {r : Resolution} {name : String} {m o : CellRef} {this : ObjectRef}

/-! ### Declared descriptors -/

/-- What is declared for a class names its position, and the class it is from has the same
position for it. -/
theorem Lineages.declared?_placed (hl : w.Lineages) (hc : w.classes.Live c)
    (hk : w.slotOf c name = some k) {d : Descriptor β} (hd : w.declared? c name k = some d) :
    d.name = name ∧ d.slot = k ∧
      ∃ a ∈ w.lineage c, (w.classes.get a).number = d.owner ∧ w.slotOf a name = some k := by
  rw [declared?, Option.map_eq_some_iff] at hd
  obtain ⟨⟨a, d'⟩, hx, rfl⟩ := hd
  obtain ⟨ha, hlast⟩ := declaration?_eq_some hx
  have hslotted : (w.slotOf a name).isSome = true := by
    rw [hl.slotted name (hl.live_of_mem_lineage hc ha)]
    refine ⟨a, w.mem_lineage_self a, ?_⟩
    rw [Declares, Class.declares, ← lastNamed_isSome, hlast]
    rfl
  obtain ⟨j, hj⟩ := Option.isSome_iff_exists.mp hslotted
  have hsame := hl.slots_of_mem_lineage ha hj
  rw [hk] at hsame
  cases hsame
  exact ⟨name_of_lastNamed hlast, rfl, a, ha, rfl, hj⟩

/-! ### Names of copies -/

/-- A descriptor that belongs where it says: some class of its number has its name in its
slot, and what it stands for, if it is a trampoline, has the same name and slot. -/
structure Placed (w : World β) (d : Descriptor β) : Prop where
  owner : ∃ a, w.classes.Live a ∧ (w.classes.get a).number = d.owner ∧
    w.slotOf a d.name = some d.slot
  replaced : ∀ {o}, d.replaced? = some o → w.cells.Live o ∧ (w.content o).name = d.name ∧
    (w.content o).slot = d.slot

/-- Every copy has the name of its position, and holds something that belongs where it
says. -/
structure Named (w : World β) : Prop where
  name : ∀ {g i r} {k : Nat} {m : CellRef} {name}, w.Resolves g i r →
    (w.tables.get r.intercepted)[k]? = some m → w.slotOf r.cls name = some k →
    (w.content m).name = name
  placed : ∀ {m}, w.Copied m → w.Placed (w.content m)

/-- Cells keep their names. -/
def SameNames (w w' : World β) : Prop :=
  ∀ m, w.cells.Live m → (w'.content m).name = (w.content m).name

namespace SameNames

theorem of_keeps (h : w.cells.Keeps w'.cells) : w.SameNames w' := fun m hm =>
  congrArg Descriptor.name (h m hm).2

theorem trans {w'' : World β} (h : w.SameNames w') (h' : w'.SameNames w'') (hg : w.Grows w') :
    w.SameNames w'' := fun m hm => (h' m (hg.cells m hm)).trans (h m hm)

end SameNames

theorem Placed.of_tends {d : Descriptor β} (h : w.Placed d) (hw : w.Tends w')
    (hnames : w.SameNames w') : w'.Placed d := by
  obtain ⟨a, ha, hnumber, hslot⟩ := h.owner
  obtain ⟨ha', halike⟩ := hw.grows.classes a ha
  refine ⟨⟨a, ha', halike.number.trans hnumber, (halike.slotOf d.name).trans hslot⟩,
    fun {o} ho => ?_⟩
  obtain ⟨hlive, hname, hslot⟩ := h.replaced ho
  exact ⟨hw.grows.cells o hlive, (hnames o hlive).trans hname, (hw.slots o hlive).trans hslot⟩

theorem Placed.copyOf {row : Row} (h : w'.Placed (w.content o)) (ho : w.cells.Live o)
    (hext : Extends 0 w w') : w'.Placed (row.copyOf (w.content o) o) := by
  unfold Row.copyOf
  split
  · refine ⟨h.owner, fun {o'} ho' => ?_⟩
    have hsame : some o = some o' := ho'
    cases hsame
    exact ⟨hext.grows.cells o ho, by rw [hext.content ho]; rfl, by rw [hext.content ho]; rfl⟩
  · exact h

namespace Named

theorem empty : ({} : World β).Named where
  name hr := absurd hr.live (Nat.not_lt_zero _)
  placed := by
    rintro _ ⟨_, _, _, _, hr, _⟩
    exact absurd hr.live (Nat.not_lt_zero _)

/-- The cells of a table of a class have the names of their positions. -/
theorem name_of_fits (h : w.Named) (hl : w.Lineages) (ht : w.Tabled) (hc : w.classes.Live c)
    {t : TableRef} (hfits : w.Fits c t) (hm : (w.tables.get t)[k]? = some m)
    (hk : w.slotOf c name = some k) : (w.content m).name = name := by
  by_cases hcopied : w.Copied m
  · obtain ⟨g, i, r, j, hr, hj⟩ := hcopied
    obtain ⟨hmem, rfl⟩ := hfits.copies hm hr hj
    obtain ⟨name', hname'⟩ := (ht.intercepted hr).named (List.getElem?_eq_some_iff.mp hj).1
    have hsame := hl.distinct (hl.slots_of_mem_lineage hmem hname') hk
    rw [← hsame]
    exact h.name hr hj hname'
  · exact (hl.declared?_placed hc hk (hfits.plain hm hcopied hk)).1

/-- What they hold belongs where it says. -/
theorem placed_of_fits (h : w.Named) (hl : w.Lineages) (hc : w.classes.Live c) {t : TableRef}
    (hfits : w.Fits c t) (hm : (w.tables.get t)[k]? = some m) : w.Placed (w.content m) := by
  by_cases hcopied : w.Copied m
  · exact h.placed hcopied
  · obtain ⟨name, hname⟩ := hfits.named (List.getElem?_eq_some_iff.mp hm).1
    have hplain := hfits.plain hm hcopied hname
    obtain ⟨hdname, hdslot, a, ha, hnumber, hslot⟩ := hl.declared?_placed hc hname hplain
    refine ⟨⟨a, hl.live_of_mem_lineage hc ha, hnumber, ?_⟩, fun {o} ho => ?_⟩
    · rw [hdname, hdslot]
      exact hslot
    · have hno := isTrampoline_of_declared? hplain
      rw [Descriptor.isTrampoline, ho] at hno
      cases hno

/-- A copy of an entry that was filled in before has its name and its place still. -/
theorem kept (h : w.Named) (ht : w.Tabled) (ho : w.Orderly) (htends : w.Tends w')
    (hnames : w.SameNames w') (hplaced : ∀ {m}, w.Copied m → w.Placed (w'.content m))
    (hr : w.Resolves g i r) (hk : (w'.tables.get r.intercepted)[k]? = some m) :
    (∀ {name}, w'.slotOf r.cls name = some k → (w'.content m).name = name) ∧
      w'.Placed (w'.content m) := by
  rw [htends.grows.table_intercepted ht hr] at hk
  refine ⟨fun {name} hname => ?_, (hplaced ⟨g, i, r, k, hr, hk⟩).of_tends htends hnames⟩
  have hslot := (htends.grows.classes _ (ho.live hr)).2.slotOf name
  rw [hnames m ((ht.intercepted hr).live_of_mem hk)]
  exact h.name hr hk (hslot.symm.trans hname)

/-- Where no entry is filled in, names and places stay. -/
theorem of_tends (h : w.Named) (ht : w.Tabled) (ho : w.Orderly) (htends : w.Tends w')
    (hnames : w.SameNames w') (hplaced : ∀ {m}, w.Copied m → w.Placed (w'.content m))
    (hres : ∀ {g i r}, w'.Resolves g i r → w.Resolves g i r) : w'.Named where
  name hr hk hname := (h.kept ht ho htends hnames hplaced (hres hr) hk).1 hname
  placed := by
    rintro m ⟨g, i, r, k, hr, hk⟩
    exact (h.kept ht ho htends hnames hplaced (hres hr) hk).2

theorem placed_extends (h : w.Named) (ht : w.Tabled) (hext : Extends 0 w w')
    (hm : w.Copied m) : w.Placed (w'.content m) := by
  rw [hext.content (hm.live ht)]
  exact h.placed hm

theorem of_extends (h : w.Named) (ht : w.Tabled) (ho : w.Orderly) (hext : Extends 0 w w')
    (hres : ∀ {g i r}, w'.Resolves g i r → w.Resolves g i r) : w'.Named :=
  h.of_tends ht ho (tends_of_extends hext hres) (.of_keeps hext.cells)
    (fun hm => h.placed_extends ht hext hm) hres

/-! ### Patching -/

/-- A copy has the name and the place of the cell it is a copy of. -/
theorem installTrampolines (h : w.Named) (hl : w.Lineages) (ho : w.Orderly) (ht : w.Tabled)
    (hc : w.classes.Live c) {handler : ClassRef} {offset : Nat} :
    (w.installTrampolines g i c handler offset).Named := by
  have hext := extends_installTrampolines w g i handler offset (Nat.zero_le c.index)
  have htends := tends_installTrampolines w g i c handler offset
  have hnames : w.SameNames (w.installTrampolines g i c handler offset) := .of_keeps hext.cells
  have hfits := ht.current c hc
  have hlive : ∀ m ∈ w.tableOf c, w.cells.Live m := fun m hm => by
    obtain ⟨k, hk⟩ := List.mem_iff_getElem?.mp hm
    exact hfits.live_of_mem hk
  -- What the new table has in a position is a copy of what the old one has there.
  have hcopy : ∀ {k : Nat} {m : CellRef},
      ((w.installTrampolines g i c handler offset).tables.get w.tables.next)[k]? = some m →
      ∃ o, (w.tableOf c)[k]? = some o ∧
        (w.installTrampolines g i c handler offset).content m =
          (w.entry g i).row.copyOf (w.content o) o := fun {k m} hk => by
    obtain ⟨hlt, rfl⟩ := installed_getElem?.mp hk
    have hold : (w.tableOf c)[k]? = some (w.tableOf c)[k] := List.getElem?_eq_getElem hlt
    exact ⟨_, hold, content_copy hlive hold⟩
  refine ⟨fun {g' j r k m name} hr hk hname => ?_, ?_⟩
  · rcases resolves_installTrampolines hr with hold | ⟨-, -, rfl⟩
    · exact (h.kept ht ho htends hnames (fun hm => h.placed_extends ht hext hm) hold hk).1 hname
    · obtain ⟨o, ho, hcontent⟩ := hcopy hk
      have hslot := (hext.grows.classes c hc).2.slotOf name
      rw [hcontent, Row.name_copyOf]
      exact h.name_of_fits hl ht hc hfits ho (hslot.symm.trans hname)
  · rintro m ⟨g', j, r, k, hr, hk⟩
    rcases resolves_installTrampolines hr with hold | ⟨-, -, rfl⟩
    · exact (h.kept ht ho htends hnames (fun hm => h.placed_extends ht hext hm) hold hk).2
    · obtain ⟨o, ho, hcontent⟩ := hcopy hk
      have hplaced := (h.placed_of_fits hl hc hfits ho).of_tends htends hnames
      rw [hcontent]
      exact hplaced.copyOf (hlive o (List.mem_of_getElem? ho)) hext

theorem enroll (h : w.Named) (hl : w.Lineages) (ho : w.Orderly) (ht : w.Tabled)
    (hn : w.Newcomer v c) : (w.enroll v c).Named := by
  have hp := patches_patch w v (w.coreOf v) c
  obtain ⟨hpatched, -⟩ := ht.patch hl ho hn.live (v := v) (w.coreOf v)
  have ho' := ho.patch v (w.coreOf v) hn.live hn.unbound
  have hext := extends_patched w v c
  have hres : ∀ {g i r}, (w.enroll v c).Resolves g i r →
      (w.patch v (w.coreOf v) c).2.Resolves g i r := fun hr => hr
  generalize (w.patch v (w.coreOf v) c).2 = x at hp hpatched ho' hext hres
  have hx : x.Named := by
    cases hp with
    | nothing => exact h
    | installs _ _ _ _ => exact h.installTrampolines hl ho ht hn.live
  exact hx.of_extends hpatched ho' hext hres

theorem define (h : w.Named) (hw : w.Sound) {d : ClassDecl β} (hd : w.define v d = .ok (c, w')) :
    w'.Named :=
  hw.define_induct hd
    (fun _ => h.of_extends hw.tabled hw.orderly (extends_link 0 w d _ _) fun hr => hr)
    fun ho hl ht hn hx => hx.enroll hl ho ht hn

theorem newRegistry (h : w.Named) (hw : w.Sound) (rows : List Row) :
    (w.newRegistry rows).2.Named :=
  h.of_extends hw.tabled hw.orderly (extends_newRegistry 0 w rows) resolves_newRegistry

theorem newVmAround (h : w.Named) (hw : w.Sound) (options : VmOptions) (core : Core) :
    (w.newVmAround options core).2.Named :=
  hw.newVmAround_keeps options core
    (h.of_extends hw.tabled hw.orderly (extends_bareMachine 0 w options core) fun hr => hr)
    fun ho hl ht hn hx => hx.enroll hl ho ht hn

end Named

/-! ### Windows -/

/-- The receiver's class has the name of a trampoline in the slot of the trampoline. -/
def Meant (w : World β) (m : CellRef) (this : ObjectRef) : Prop :=
  w.slotOf (w.classOf this) (w.content m).name = some (w.content m).slot

section Windows

variable {th : Thread} {core : Core}

/-- What a window writes into a trampoline that the receiver's class has in its slot has the
trampoline's name, and belongs where it says. -/
theorem Named.disarm (h : w.Named) (hw : w.Sound) (hm : w.Copied m) (hthis : w.Meant m this)
    (hr : w.Resolves g i r) (hmem : r.cls ∈ w.lineage (w.classOf this)) :
    ((w.disarm r m).content m).name = (w.content m).name ∧
      w.Placed ((w.disarm r m).content m) := by
  cases hplain : (w.tables.get r.unpatched)[(w.content m).slot]? with
  | none =>
    have hsame : (w.disarm r m).content m = w.content m := by
      simp only [World.disarm, hplain, content_install]
    rw [hsame]
    exact ⟨rfl, h.placed hm⟩
  | some plain =>
    have hlive := hw.orderly.live hr
    have hfits := hw.tabled.unpatched hr
    obtain ⟨name, hname⟩ := hfits.named (List.getElem?_eq_some_iff.mp hplain).1
    have hsame := hw.lineages.distinct (hw.lineages.slots_of_mem_lineage hmem hname) hthis
    rw [content_disarm_self (hm.live hw.tabled) hplain,
      h.name_of_fits hw.lineages hw.tabled hlive hfits hplain hname]
    exact ⟨hsame, h.placed_of_fits hw.lineages hlive hfits hplain⟩

/-- A step that writes into one copy something of the copy's name that belongs where it
says. -/
theorem Named.of_write (h : w.Named) (hw : w.Sound) (hturns : w.Turns w')
    (hothers : ∀ n, n ≠ m → w'.content n = w.content n)
    (hname : (w'.content m).name = (w.content m).name) (hplaced : w.Placed (w'.content m)) :
    w'.Named ∧ w.SameNames w' := by
  have hnames : w.SameNames w' := fun n _ => by
    by_cases hn : n = m
    · rw [hn, hname]
    · rw [hothers n hn]
  refine ⟨h.of_tends hw.tabled hw.orderly hturns.tends hnames (fun {n} hcopied => ?_)
    hturns.resolves, hnames⟩
  by_cases hn : n = m
  · rw [hn]
    exact hplaced
  · rw [hothers n hn]
    exact h.placed hcopied

/-- Opening a window keeps names and places. -/
theorem Named.openWindow (h : w.Named) (hw : w.Sound)
    (htramp : (w.content m).isTrampoline = true) (hthis : w.Meant m this) :
    (w.openWindow th v core this m).2.1.Named ∧
      w.SameNames (w.openWindow th v core this m).2.1 := by
  have hcopied := hw.tabled.copied htramp
  have hwritten : ((w.openWindow th v core this m).2.1.content m).name = (w.content m).name ∧
      w.Placed ((w.openWindow th v core this m).2.1.content m) := by
    have hopens := opens_openWindow w th v core this m
    generalize w.openWindow th v core this m = x at hopens ⊢
    cases hopens with
    | passthrough _ => exact ⟨rfl, h.placed hcopied⟩
    | perCall _ _ _ => exact ⟨rfl, h.placed hcopied⟩
    | classWide _ hr _ =>
      obtain ⟨-, hres, hmem⟩ := interceptionOf_eq_some.mp hr
      exact h.disarm hw hcopied hthis hres hmem
  exact h.of_write hw (hw.turns_openWindow htramp)
    (fun n hn => content_openWindow_of_ne hn) hwritten.1 hwritten.2

/-- Closing a window leaves the trampoline with what it holds or gives it back what it held
when the window was opened. -/
theorem content_closeWindow_self {x : World β} (u : Thread) (hm : x.cells.Live m) :
    (x.closeWindow u (w.openWindow th v core this m).1).1.content m = x.content m ∨
      (x.closeWindow u (w.openWindow th v core this m).1).1.content m = w.content m := by
  have hopens := opens_openWindow w th v core this m
  generalize w.openWindow th v core this m = y at hopens ⊢
  cases hopens with
  | passthrough _ => exact Or.inl rfl
  | perCall _ _ _ => exact Or.inl rfl
  | classWide _ _ _ =>
    simp only [World.closeWindow]
    split
    · exact Or.inr (content_rearm_self hm _ _)
    · exact Or.inl rfl

/-- So closing it keeps names and places. -/
theorem Named.closeWindow (h : w.Named) (hw : w.Sound)
    (htramp : (w.content m).isTrampoline = true) {x : World β} (hx : x.Named) (hxs : x.Sound)
    (htends : w.Tends x) (hnames : w.SameNames x) (u : Thread) :
    (x.closeWindow u (w.openWindow th v core this m).1).1.Named ∧
      x.SameNames (x.closeWindow u (w.openWindow th v core this m).1).1 := by
  have hold := hw.tabled.copied htramp
  have hlive := hold.live hw.tabled
  have hcopied : x.Copied m := hold.of_grows hw.tabled htends.grows
  have hguard : (w.openWindow th v core this m).1.trampoline = m :=
    trampoline_guardFor ⟨w, th, []⟩ v core this m
  refine hx.of_write hxs (hw.turns_closeWindow htramp hxs htends.grows u)
    (fun n hn => content_closeWindow_of_ne (hguard.symm ▸ hn)) ?_ ?_
  · rcases content_closeWindow_self u (htends.grows.cells m hlive) with hsame | hback
    · rw [hsame]
    · rw [hback, hnames m hlive]
  · rcases content_closeWindow_self u (htends.grows.cells m hlive) with hsame | hback
    · rw [hsame]
      exact hx.placed hcopied
    · rw [hback]
      exact (h.placed hold).of_tends htends hnames

end Windows

/-! ### Cells that are called -/

theorem Sound.live_classOf (hw : w.Sound) (hc : w.classes.Live c) (o : ObjectRef) :
    w.classes.Live (w.classOf o) := by
  by_cases ho : w.objects.Live o
  · exact hw.peopled.live ho
  · -- No object there reads as an instance of the first class.
    have hfirst : w.classOf o = ⟨0⟩ := by
      rw [classOf, Store.get_of_not_live ho]
      rfl
    rw [hfirst]
    exact Nat.lt_of_le_of_lt (Nat.zero_le _) hc

theorem Sound.live_of_trampoline (hw : w.Sound) (htramp : (w.content m).isTrampoline = true)
    (o : ObjectRef) : w.classes.Live (w.classOf o) := by
  obtain ⟨g, i, r, k, hr, -⟩ := hw.tabled.copied htramp
  exact hw.live_classOf (hw.orderly.live hr) o

/-- A trampoline found in the receiver's table is in the slot of its name. -/
theorem Named.meant_methodAt (h : w.Named) (hw : w.Sound)
    (hm : w.methodAt (w.classOf this) k = some m) (htramp : (w.content m).isTrampoline = true) :
    w.Meant m this := by
  have hc := hw.live_of_trampoline htramp this
  have hfits := hw.tabled.current _ hc
  obtain ⟨name, hname⟩ := hfits.named (List.getElem?_eq_some_iff.mp hm).1
  rw [Meant, h.name_of_fits hw.lineages hw.tabled hc hfits hm hname, (hfits.cells hm).2]
  exact hname

/-- So is one that passed the receiver check, where there is one machine. -/
theorem Named.meant_checked (h : w.Named) (hw : w.Sound) (hone : w.vms.size ≤ 1)
    (hm : w.checkReceiver this (w.content m) = .ok ())
    (htramp : (w.content m).isTrampoline = true) : w.Meant m this := by
  have hc := hw.live_of_trampoline htramp this
  obtain ⟨a, ha, hnumber, hslot⟩ := (h.placed (hw.tabled.copied htramp)).owner
  obtain ⟨v, hv⟩ := hw.homed _ hc
  obtain ⟨u, hu⟩ := hw.homed a ha
  obtain rfl := eq_of_live_vms hone hu.live_vm hv.live_vm
  have habove : a ∈ w.lineage (w.classOf this) := by
    rw [← hw.homes.derivesFrom_iff hv hu, hnumber]
    by_contra hno
    rw [checkReceiver, if_neg hno] at hm
    cases hm
  exact hw.lineages.slots_of_mem_lineage habove hslot

/-- And what a trampoline stands for, if that is another one. -/
theorem Named.meant_replaced (h : w.Named) (hw : w.Sound) (hm : w.Meant m this)
    (ho : (w.content m).replaced? = some o) : w.Meant o this := by
  have htramp := Descriptor.isTrampoline_of_replaced? ho
  obtain ⟨-, hname, hslot⟩ := (h.placed (hw.tabled.copied htramp)).replaced ho
  rw [Meant, hname, hslot]
  exact hm

/-- Where there is one machine, there never were more. -/
theorem Grows.alone (h : w.Grows w') (hone : w'.vms.size ≤ 1) : w.vms.size ≤ 1 := by
  by_contra hmore
  have hlive : w.vms.Live ⟨1⟩ := Nat.lt_of_not_le hmore
  have hlt : 1 < w'.vms.size := (h.vms _ hlive).1
  omega

/-- On one machine, a trampoline that is called is one the receiver's class has in its
slot. -/
def MeantAlone (w : World β) (_ : VmRef) (m : CellRef) (this : ObjectRef) : Prop :=
  w.vms.size ≤ 1 → (w.content m).isTrampoline = true → w.Meant m this

end World

/-! ### Every run -/

/-- Checked runs on one machine keep the names of all cells. -/
theorem kept_named : Kept (β := β) (fun op => op.IsChecked = true) World.MeantAlone
    (fun t => (t.world.Sound ∧ t.world.Directs) ∧ (t.world.vms.size ≤ 1 → t.world.Named))
    (fun t u => (t.world.Sound ∧ t.world.Tends u.world) ∧
      (u.world.vms.size ≤ 1 → t.world.SameNames u.world)) where
  ordinary := Op.IsChecked.isOrdinary
  refl ht := ⟨kept_directs.refl ht.1, fun _ => .of_keeps (.refl _)⟩
  trans hu hx h h' := by
    refine ⟨kept_directs.trans hu.1 hx.1 h.1 h'.1, fun hone => ?_⟩
    have hgrows := h'.1.2.grows
    exact (h.2 (hgrows.alone hone)).trans (h'.2 hone) h.1.2.grows
  note he ht := by
    have h := kept_directs.note he ht.1
    exact ⟨⟨h.inv, ht.2⟩, h.rel, fun _ => .of_keeps (.refl _)⟩
  define {t v d c w} _ ht hd := by
    have h := kept_directs.define rfl ht.1 hd
    have hext := World.extends_define hd
    refine ⟨⟨h.inv, fun hone => ?_⟩, h.rel, fun _ => .of_keeps hext.cells⟩
    exact (ht.2 (hext.grows.alone hone)).define ht.1.1 hd
  allocate {t v c} _ ht := by
    have h := kept_directs.allocate (v := v) (c := c) rfl ht.1
    have honly := World.onlyObjects_allocate t.world v c
    have hext := honly.toExtends 0
    refine ⟨⟨h.inv, fun hone => ?_⟩, h.rel, fun _ => .of_keeps hext.cells⟩
    exact (ht.2 (hext.grows.alone hone)).of_extends ht.1.1.tabled ht.1.1.orderly hext
      honly.turns.resolves
  setField {t o i x w} _ ht hf := by
    have h := kept_directs.setField rfl ht.1 hf
    have honly := World.onlyObjects_setField hf
    have hext := honly.toExtends 0
    refine ⟨⟨h.inv, fun hone => ?_⟩, h.rel, fun _ => .of_keeps hext.cells⟩
    exact (ht.2 (hext.grows.alone hone)).of_extends ht.1.1.tabled ht.1.1.orderly hext
      honly.turns.resolves
  frame args ht _ _ := ⟨ht, fun _ hu h => ⟨hu, h⟩⟩
  window {t v m this args _ _} ht hmay he hr hw hh := by
    have htramp := Descriptor.isTrampoline_of_replaced? hr
    obtain ⟨hin, hout⟩ := kept_directs.window ht.1 trivial he hr hw hh
    have hopen : t.world.Tends (t.begin v (t.world.coreOf v) this m).world :=
      (ht.1.1.turns_openWindow htramp).tends
    have hopened : t.world.vms.size ≤ 1 →
        (t.begin v (t.world.coreOf v) this m).world.Named ∧
          t.world.SameNames (t.begin v (t.world.coreOf v) this m).world := fun hone =>
      (ht.2 hone).openWindow ht.1.1 htramp (hmay hone htramp)
    refine ⟨⟨hin, fun hone => (hopened (hopen.grows.alone hone)).1⟩, fun u hu h => ?_⟩
    have hclosed := hout u hu.1 h.1
    have hinside := hopen.trans h.1.2 ht.1.1.tabled hin.1.tabled
    have hfinish := u.grows_finish (t.guardFor v (t.world.coreOf v) this m)
    have hfinished : u.world.vms.size ≤ 1 →
        (u.finish (t.guardFor v (t.world.coreOf v) this m)).world.Named ∧
          t.world.SameNames (u.finish (t.guardFor v (t.world.coreOf v) this m)).world :=
      fun hone => by
        have hone₀ := hinside.grows.alone hone
        have hnames := (hopened hone₀).2.trans (h.2 hone) hopen.grows
        have hclosing : (u.finish (t.guardFor v (t.world.coreOf v) this m)).world.Named ∧
            u.world.SameNames (u.finish (t.guardFor v (t.world.coreOf v) this m)).world :=
          (ht.2 hone₀).closeWindow ht.1.1 htramp (hu.2 hone) hu.1.1 hinside hnames u.thread
        exact ⟨hclosing.1, hnames.trans hclosing.2 hinside.grows⟩
    exact ⟨⟨hclosed.inv, fun hone => (hfinished (hfinish.alone hone)).1⟩, hclosed.rel,
      fun hone => (hfinished (hfinish.alone hone)).2⟩
  slot ht hm hone htramp := (ht.2 hone).meant_methodAt ht.1.1 hm htramp
  direct _ ht hm _ htramp := by
    rw [ht.1.2.isTrampoline ht.1.1 hm] at htramp
    cases htramp
  method _ ht hrec _ hone htramp := (ht.2 hone).meant_checked ht.1.1 hone hrec htramp
  execute ha _ := by cases ha
  replaced {t v m this o} ht hmay ho _ hone _ := by
    have htramp := Descriptor.isTrampoline_of_replaced? ho
    exact (ht.2 hone).meant_replaced ht.1.1 (hmay hone htramp) ho

section Reached

variable {host : Host β H} {s : State β (Logged β H)}

/-- At every moment of a checked run on one machine copies have their names. -/
theorem Reached.named
    (hb : ∀ b v this args, (host.body b v this args).Uses fun op => op.IsChecked = true)
    (hs : Reached host (fun op => op.IsChecked = true) s) {w : World β} {th : Thread}
    (hat : s.trail.At w th) : w.Sound ∧ (w.vms.size ≤ 1 → w.Named) := by
  have h := Reached.everywhere
    (P := fun w _ => (w.Sound ∧ w.Directs) ∧ (w.vms.size ≤ 1 → w.Named))
    kept_named hb ⟨⟨.empty, .empty⟩, fun _ => .empty⟩ ?_ ?_ hs hat
  · exact ⟨h.1.1, h.2⟩
  · intro w _ rows hw
    refine ⟨⟨hw.1.1.newRegistry rows, hw.1.2.newRegistry hw.1.1 rows⟩, fun hone => ?_⟩
    exact (hw.2 ((World.extends_newRegistry 0 w rows).grows.alone hone)).newRegistry
      hw.1.1 rows
  · intro w _ options core _ hw
    refine ⟨⟨hw.1.1.newVmAround options core, hw.1.2.newVmAround hw.1.1 options core⟩,
      fun hone => ?_⟩
    exact (hw.2 ((World.extends_newVmAround w options core).grows.alone hone)).newVmAround
      hw.1.1 options core

end Reached

end Interception
