/-
What a class inherits.

A class is linked from the table its superclass has at that moment, and every name it does not
declare itself keeps the superclass's cell.  Where neither table changes any more, which is so
of classes that were not patched and, if all machines work per call, of all of them, the two
classes have one cell for the name from then on.  Going up a lineage in this way leads from
any class to the one class of the lineage that was patched, provided nothing in between
declares the name, and there to the copy that patching made.

So in per-call mode a class below a patched one has a trampoline for exactly the listed methods
that it inherits, and it is the very trampoline of the patched class.
-/
import Interception.Proofs.Coherence
import Interception.Proofs.Confinement
import Interception.Proofs.Dispatching
import Interception.Proofs.Nearest
import Interception.Proofs.Ownership

namespace Interception

variable {β H : Type}

namespace World

variable {w w' : World β} {v : VmRef} {a c s : ClassRef} {g : RegistryRef} {i k : Nat}
  {r : Resolution} {name : String} {t : CellRef}

/-! ### Linking -/

/-- What is linked below a class has the cells the class has now, except where it declares a
method itself. -/
theorem methodAt_linked (hw : w.Sound) (hs : w.classes.Live s) {d : ClassDecl β}
    (hk : w.slotOf s name = some k) (hd : lastNamed d.virtuals name = none) :
    (w.linked v d s).methodAt w.classes.next k = w.methodAt s k := by
  have hlaid := laid_laidOut d (w.vms.get v).classes.next (hw.tabled.ordered hw.lineages hs)
  have hnext := get_link_next w d (w.vms.get v).classes.next (some s)
  obtain ⟨-, hcell⟩ := hlaid.inherited (hlaid.kept hk) hd
  have htable : (w.linked v d s).tableOf w.classes.next =
      (w.laidOut d (w.vms.get v).classes.next (some s)).table := by
    show (w.linked v d s).tables.get ((w.linked v d s).classes.get w.classes.next).table = _
    rw [linked, hnext.table, tables_link, Store.get_add_next]
  rw [methodAt, htable]
  exact hcell

/-- The same once the class is defined: in its own table if it was not patched, and in the table
that was replaced if it was. -/
theorem Sound.methodAt_define (hw : w.Sound) {d : ClassDecl β}
    (hd : w.define v d = .ok (c, w')) :
    ∃ s, w.findClass v (d.extends?.getD rootClassName) = some s ∧ w.Registered v s ∧
      c = w.classes.next ∧ w'.ancestors c = w.lineage s ∧
      ∀ {name k}, w.slotOf s name = some k → ¬ w'.Declares c name →
        (w'.Unbound c → w'.methodAt c k = w.methodAt s k) ∧
        ∀ {g i r}, w'.Resolves g i r → r.cls = c →
          (w'.tables.get r.unpatched)[k]? = w.methodAt s k := by
  obtain ⟨s, hs, rfl, hw', htables⟩ := hw.define_linked hd
  obtain ⟨hreg, -⟩ := hw.homes.of_findClass hs
  have hnext := get_link_next w d (w.vms.get v).classes.next (some s)
  have hsame : (w.linked v d s).SameClasses w' := hw' ▸ sameClasses_enroll _ v _
  have halike := hsame.alike w.classes.next
  refine ⟨s, hs, hreg, rfl, halike.ancestors.trans hnext.ancestors, fun {name k} hk hno => ?_⟩
  have hdeclared : (w'.classes.get w.classes.next).declared = d.virtuals :=
    halike.declared.trans hnext.declared
  have hlast : lastNamed d.virtuals name = none := by
    rw [Declares, Class.declares, hdeclared, ← lastNamed_isSome] at hno
    exact Option.not_isSome_iff_eq_none.mp hno
  have hlinked := methodAt_linked (v := v) hw (hw.homes.live hreg) hk hlast
  refine ⟨fun hu => ?_, fun {g i r} hr hcls => ?_⟩
  · rw [World.methodAt, (htables hu).2.1]
    exact hlinked
  · subst hw'
    have hinitialized := resolves_enroll.mp hr
    rcases resolves_initializeClass hinitialized with hold | hfilled
    · exact absurd hcls (hw.orderly.unbound_next g i r hold)
    · have hext := extends_enroll (w.linked v d s) v (Nat.zero_le w.classes.next.index)
      have hlive : (w.linked v d s).tables.Live
          ((w.linked v d s).classes.get w.classes.next).table := by
        rw [World.linked, hnext.table, tables_link]
        exact Store.live_next_add _ _
      rw [hfilled.unpatched, (hext.grows.tables _ hlive).2]
      exact hlinked

theorem sameClasses_newVmAround (w : World β) (options : VmOptions) (core : Core) :
    (w.bareMachine options core).SameClasses (w.newVmAround options core).2 := by
  rw [newVmAround_eq]
  exact (sameClasses_enroll _ w.vms.next _).trans (sameClasses_enroll _ w.vms.next _)

/-- A machine's root class has no slots. -/
theorem slots_bareMachine (w : World β) (options : VmOptions) (core : Core) :
    ((w.bareMachine options core).classes.get w.classes.next).slots = [] := by
  have hne : w.classes.next ≠ w.rootLinked.classes.next := by
    intro he
    rw [next_rootLinked] at he
    exact absurd (congrArg Ref.index he).symm (Nat.succ_ne_self _)
  rw [classes_bareMachine, get_link_of_ne _ _ _ _ hne]
  exact (get_link_next w { name := rootClassName } 0 none).slots

/-- A definition makes one class. -/
theorem live_define {d : ClassDecl β} (hd : w.define v d = .ok (c, w')) (a : ClassRef) :
    w'.classes.Live a ↔ w.classes.Live a ∨ a = c := by
  obtain ⟨rfl, s, -, rfl⟩ := define_enrolls hd
  rw [(sameClasses_enroll _ v _).live, live_link_iff]

/-! ### What stays -/

/-- A class that was not patched has its superclass's cell for every name that it does not
declare, unless the superclass was patched and might have had another table. -/
structure Inherits (w : World β) : Prop where
  cells : ∀ {c s name k}, w.classes.Live c → w.Unbound c → (w.ancestors c).head? = some s →
    (w.Unbound s ∨ w.PerCall) → w.slotOf s name = some k → ¬ w.Declares c name →
    w.methodAt c k = w.methodAt s k

/-- Tables that do not change. -/
theorem Confines.table (h : w.Confines w') (hp : w.Preserves w') (hc : w.classes.Live c)
    (hfixed : w'.Unbound c ∨ w'.PerCall) :
    (w'.classes.get c).table = (w.classes.get c).table := by
  rcases hfixed with hu | hmode
  · exact h.tables c hc fun g i r hr => hu g i r (hp.grows.resolved hr)
  · rw [(hp.classes hmode c hc).2]

theorem Confines.methodAt (h : w.Confines w') (hp : w.Preserves w') (hw : w.Sound)
    (hc : w.classes.Live c) (hfixed : w'.Unbound c ∨ w'.PerCall) (k : Nat) :
    w'.methodAt c k = w.methodAt c k := by
  have htable := (hp.grows.tables _ (hw.tabled.current c hc).live).2
  rw [World.methodAt, World.methodAt, tableOf, tableOf, h.table hp hc hfixed, htable]

namespace Inherits

theorem empty : ({} : World β).Inherits where
  cells hc := absurd hc (Nat.not_lt_zero _)

/-- It is enough to look at new classes. -/
theorem kept (h : w.Inherits) (hw : w.Sound) (hc : w.Confines w') (hp : w.Preserves w')
    (hnew : ∀ {c s name k}, w'.classes.Live c → ¬ w.classes.Live c → w'.Unbound c →
      (w'.ancestors c).head? = some s → (w'.Unbound s ∨ w'.PerCall) →
      w'.slotOf s name = some k → ¬ w'.Declares c name → w'.methodAt c k = w'.methodAt s k) :
    w'.Inherits := by
  refine ⟨fun {c s name k} hlive hu hhead hfixed hk hno => ?_⟩
  by_cases hold : w.classes.Live c
  · obtain ⟨-, halike⟩ := hp.grows.classes c hold
    have hbefore : ∀ {a}, w'.Unbound a → w.Unbound a := fun hua g i r hr =>
      hua g i r (hp.grows.resolved hr)
    rw [World.ancestors, halike.ancestors] at hhead
    have hs : w.classes.Live s := hw.lineages.live (List.mem_of_head? hhead)
    rw [World.slotOf, (hp.grows.classes s hs).2.slotOf] at hk
    rw [World.Declares, Class.declares, halike.declared] at hno
    rw [hc.methodAt hp hw hold (Or.inl hu), hc.methodAt hp hw hs hfixed]
    exact h.cells hold (hbefore hu) hhead (hfixed.imp hbefore hp.grows.perCall) hk hno
  · exact hnew hlive hold hu hhead hfixed hk hno

/-- There are no new classes. -/
theorem of_sameClasses (h : w.Inherits) (hw : w.Sound) (hc : w.Confines w')
    (hp : w.Preserves w') (hs : w.SameClasses w') : w'.Inherits :=
  h.kept hw hc hp fun hlive hold => absurd ((hs.live _).mp hlive) hold

theorem define (h : w.Inherits) (hw : w.Sound) {d : ClassDecl β}
    (hd : w.define v d = .ok (c, w')) : w'.Inherits := by
  have hext := extends_define hd
  obtain ⟨s, -, hreg, hnext, hancestors, hcells⟩ := hw.methodAt_define hd
  have hs := hw.homes.live hreg
  refine h.kept hw (.of_extends hext) (.of_extends hext)
    fun {a b name k} hlive hold hu hhead hfixed hk hno => ?_
  -- The only new class is the one defined, and its superclass was there before.
  obtain rfl : a = c := ((live_define hd a).mp hlive).resolve_left hold
  rw [hancestors] at hhead
  obtain rfl : s = b := Option.some.inj hhead
  rw [World.slotOf, (hext.grows.classes s hs).2.slotOf] at hk
  rw [(hcells hk hno).1 hu, Confines.methodAt (.of_extends hext) (.of_extends hext) hw hs hfixed]

/-- Neither of a new machine's classes inherits a method. -/
theorem newVmAround (h : w.Inherits) (hw : w.Sound) (options : VmOptions) (core : Core) :
    (w.newVmAround options core).2.Inherits := by
  have hext := extends_newVmAround w options core
  have hsame := sameClasses_newVmAround w options core
  obtain ⟨hroot, hproxy, -, -⟩ := ancestors_bareMachine options core w
  refine h.kept hw (.of_extends hext) (.of_extends hext)
    fun {a b name k} hlive hold _ hhead _ hk _ => ?_
  have habove : ((w.bareMachine options core).ancestors a).head? = some b := by
    rw [World.ancestors, (hsame.alike a).ancestors] at hhead
    exact hhead
  have hlt : a.index < w.classes.size + 2 := by
    rw [← size_bareMachine w options core]
    exact (hsame.live a).mp hlive
  have hge : w.classes.size ≤ a.index := Nat.le_of_not_lt hold
  rcases Nat.lt_or_ge w.classes.size a.index with hlast | hfirst
  · have hindex : a.index = w.classes.size + 1 := by omega
    obtain rfl : a = ⟨w.classes.size + 1⟩ := Ref.ext_index hindex
    rw [hproxy] at habove
    obtain rfl : w.classes.next = b := Option.some.inj habove
    rw [World.slotOf, (hsame.alike _).slotOf, Class.slotOf, slots_bareMachine] at hk
    cases hk
  · obtain rfl : a = w.classes.next := Ref.ext_index (Nat.le_antisymm hfirst hge)
    rw [hroot] at habove
    cases habove

end Inherits

end World

/-- Ordinary runs keep what classes inherit. -/
theorem upheld_inherits : Upheld (β := β) (fun op => op.IsOrdinary = true) World.Inherits
    (fun w w' => w.Confines w' ∧ w.Preserves w') where
  ordinary h := h
  start := .empty
  refl := ⟨.refl _, .refl _⟩
  trans _ _ _ _ h h' := ⟨h.1.trans h'.1 h.2.grows, h.2.trans h'.2⟩
  registry {w} rows hw h := by
    have hext := World.extends_newRegistry w.classes.size w rows
    exact ⟨h.of_sameClasses hw (.of_extends hext) (.of_extends hext)
      ⟨fun _ => Iff.rfl, fun _ => .refl _⟩, .of_extends hext, .of_extends hext⟩
  machine {w} options core hw h := by
    have hext := World.extends_newVmAround w options core
    exact ⟨h.newVmAround hw options core, .of_extends hext, .of_extends hext⟩
  define hw h hd := by
    have hext := World.extends_define hd
    exact ⟨h.define hw hd, .of_extends hext, .of_extends hext⟩
  objects {w w'} hw h hstep := by
    have honly := hstep.onlyObjects
    have hext := honly.toExtends w.classes.size
    exact ⟨h.of_sameClasses hw (.of_extends hext) (.of_extends hext) honly.sameClasses,
      .of_extends hext, .of_extends hext⟩
  opening {w th v this m _} hw h _ _ := by
    have hc := World.confines_openWindow w th v (w.coreOf v) this m
    have hp := World.preserves_openWindow w th v this m
    exact ⟨h.of_sameClasses hw hc hp
      (World.shifts_openWindow w th v (w.coreOf v) this m).sameClasses, hc, hp⟩
  closing {w x th v this m _ u} _ _ _ hh hx h htends _ := by
    have hc := World.confines_closeWindow x u (w.openWindow th v (w.coreOf v) this m).1
    have hp := preserves_close hh htends.grows th u m
    exact ⟨h.of_sameClasses hx hc hp (World.shifts_closeWindow x u _).sameClasses, hc, hp⟩

/-! ### Up a lineage -/

namespace World

variable {w w' : World β} {v : VmRef} {a b c : ClassRef} {g : RegistryRef} {i k : Nat}
  {r : Resolution} {name : String} {t : CellRef}

/-- A class below this one, down to the other, declares the name. -/
def Overridden (w : World β) (c a : ClassRef) (name : String) : Prop :=
  ∃ b ∈ w.lineage c, a ∈ w.ancestors b ∧ w.Declares b name

instance (w : World β) (c a : ClassRef) (name : String) : Decidable (w.Overridden c a name) :=
  inferInstanceAs (Decidable (∃ b ∈ w.lineage c, a ∈ w.ancestors b ∧
    (w.classes.get b).declares name = true))

/-- Above a class that is not the one sought comes its superclass. -/
theorem Lineages.above (h : w.Lineages) (ha : a ∈ w.lineage c) (hne : a ≠ c) :
    ∃ s, (w.ancestors c).head? = some s ∧ s ∈ w.ancestors c ∧ a ∈ w.lineage s := by
  have hmem : a ∈ w.ancestors c := (List.mem_cons.mp ha).resolve_left hne
  cases hhead : (w.ancestors c).head? with
  | none =>
    rw [List.head?_eq_none_iff.mp hhead] at hmem
    cases hmem
  | some s =>
    rw [h.headed hhead] at hmem
    exact ⟨s, rfl, List.mem_of_head? hhead, hmem⟩

/-- What is not overridden is what the class above has, where nothing between was patched. -/
theorem Inherits.methodAt_above (h : w.Inherits) (hl : w.Lineages) (hc : w.classes.Live c)
    (ha : a ∈ w.lineage c) (hfixed : w.Unbound a ∨ w.PerCall)
    (hbetween : ∀ b ∈ w.lineage c, a ∈ w.ancestors b → w.Unbound b)
    (hk : w.slotOf a name = some k) (hno : ¬ w.Overridden c a name) :
    w.methodAt c k = w.methodAt a k := by
  -- By induction on the class: going up leads to classes that were there before.
  induction hindex : c.index using Nat.strongRecOn generalizing c with
  | _ index ih =>
    by_cases hne : a = c
    · rw [hne]
    · obtain ⟨s, hhead, hs, has⟩ := hl.above ha hne
      have hsc : s ∈ w.lineage c := mem_lineage_of_mem_ancestors hs
      have hself : a ∈ w.ancestors c := (List.mem_cons.mp ha).resolve_left hne
      have hlive := hl.live hs
      have hup : ∀ {b}, b ∈ w.lineage s → b ∈ w.lineage c := fun hb =>
        hl.mem_lineage_trans hb hsc
      have hsfixed : w.Unbound s ∨ w.PerCall := by
        by_cases hsa : a = s
        · exact hsa ▸ hfixed
        · exact Or.inl (hbetween s hsc ((List.mem_cons.mp has).resolve_left hsa))
      have hstep := h.cells hc (hbetween c (w.mem_lineage_self c) hself) hhead hsfixed
        (hl.slots_of_mem_lineage has hk) fun hd => hno ⟨c, w.mem_lineage_self c, hself, hd⟩
      rw [hstep]
      exact ih s.index (hindex ▸ hl.lt hs) hlive has (fun b hb => hbetween b (hup hb))
        (fun ⟨b, hb, hab, hd⟩ => hno ⟨b, hup hb, hab, hd⟩) rfl

/-- Where rows are not stacked, nothing below a patched class was patched. -/
theorem Sound.unbound_below (hw : w.Sound) (hu : w.Unstacked) (hr : w.Resolves g i r)
    (hc : w.classes.Live c) (hbelow : r.cls ∈ w.ancestors c) : w.Unbound c := by
  rintro g' i' r' hr' rfl
  obtain ⟨-, -, rfl⟩ := hw.patched_once hu hc hr hr' (mem_lineage_of_mem_ancestors hbelow)
    (w.mem_lineage_self r'.cls)
  exact Nat.lt_irrefl _ (hw.lineages.lt hbelow)

/-! ### Trampolines below -/

/-- A trampoline is of the patched class, for a listed method that is not overridden. -/
theorem Sound.inherited (hw : w.Sound) (hu : w.Unstacked) (he : w.Exact)
    (hc : w.classes.Live c) (hr : w.Resolves g i r) (hmem : r.cls ∈ w.lineage c)
    (hk : w.slotOf c name = some k) (ht : w.methodAt c k = some t)
    (htramp : (w.content t).isTrampoline = true) :
    (w.tables.get r.intercepted)[k]? = some t ∧ (w.entry g i).row.intercepts name = true ∧
      w.slotOf r.cls name = some k ∧ ¬ w.Overridden c r.cls name := by
  obtain ⟨o, g', i', r', hcopy⟩ := hw.copyAt hc ht (hw.tabled.copied htramp)
  obtain ⟨rfl, rfl, rfl⟩ := hw.patched_once hu hc hr hcopy.resolves hmem hcopy.above
  have hslot := hw.slotOf_patched hk hr hmem hcopy.copy
  have hname := name_of_declared? (hcopy.declared hw hu hc hk ht)
  refine ⟨hcopy.copy, ?_, hslot, ?_⟩
  · have hexact : w.content t = (w.entry g i).row.copyOf (w.content o) o :=
      he.related hr hcopy.copy hcopy.original
    rw [Row.copyOf, hname] at hexact
    by_contra hlisted
    rw [if_neg hlisted] at hexact
    rw [hexact, hw.isTrampoline_unpatched hu hr hcopy.original] at htramp
    cases htramp
  · -- A class between that declares the name would have the declaration for its own.
    rintro ⟨b, hb, hab, hd⟩
    have hsome := declaration?_isSome hw.lineages (hw.orderly.live hr) hslot
    have hstems := (hw.tabled.current c hc).stems ht hr hcopy.copy hk
    have hbetween := hw.lineages.declaration?_between hb (mem_lineage_of_mem_ancestors hab)
      hsome hstems
    obtain ⟨⟨x, d⟩, hx⟩ := hsome
    rw [hbetween] at hstems
    rw [Declares, Class.declares, ← lastNamed_isSome] at hd
    obtain ⟨d', hd'⟩ := Option.isSome_iff_exists.mp hd
    have hown : w.declaration? b name = some (b, d') := by
      rw [declaration?_cons, hd']
      rfl
    rw [hstems, hx] at hown
    cases hown
    have hbelow := (declaration?_eq_some hx).1
    rcases List.mem_cons.mp hbelow with heq | habove
    · exact Nat.lt_irrefl _ (heq ▸ hw.lineages.lt hab)
    · exact Nat.lt_asymm (hw.lineages.lt hab) (hw.lineages.lt habove)

/-- The copy of a listed method is a trampoline. -/
theorem Sound.isTrampoline_listed (hw : w.Sound) (hu : w.Unstacked) (he : w.Exact)
    (hr : w.Resolves g i r) (hk : w.slotOf r.cls name = some k)
    (hlisted : (w.entry g i).row.intercepts name = true) :
    ∃ t, (w.tables.get r.intercepted)[k]? = some t ∧ (w.content t).isTrampoline = true := by
  obtain ⟨t, ht⟩ := (hw.tabled.intercepted hr).exists_cell hk
  obtain ⟨o, ho⟩ := (hw.tabled.unpatched hr).exists_cell hk
  have hplain := (hw.tabled.unpatched hr).plain ho (hw.not_copied_unpatched hu hr ho) hk
  refine ⟨t, ht, ?_⟩
  have hexact : w.content t = (w.entry g i).row.copyOf (w.content o) o := he.related hr ht ho
  rw [hexact, Row.copyOf, name_of_declared? hplain, if_pos hlisted]
  rfl

/-- In per-call mode, a class has a trampoline for exactly the listed methods of the patched
class above it that are not overridden. -/
theorem Sound.isTrampoline_iff (hw : w.Sound) (hu : w.Unstacked) (hmode : w.PerCall)
    (he : w.Exact) (ha : w.Armed) (hi : w.Inherits) (hc : w.classes.Live c)
    (hr : w.Resolves g i r) (hmem : r.cls ∈ w.lineage c) (hk : w.slotOf c name = some k)
    (ht : w.methodAt c k = some t) :
    (w.content t).isTrampoline = true ↔ (w.entry g i).row.intercepts name = true ∧
      (w.slotOf r.cls name).isSome = true ∧ ¬ w.Overridden c r.cls name := by
  constructor
  · intro htramp
    obtain ⟨-, hlisted, hslot, hno⟩ := hw.inherited hu he hc hr hmem hk ht htramp
    exact ⟨hlisted, by rw [hslot]; rfl, hno⟩
  · rintro ⟨hlisted, hsome, hno⟩
    obtain ⟨j, hj⟩ := Option.isSome_iff_exists.mp hsome
    obtain rfl : j = k := Option.some.inj
      ((hw.lineages.slots_of_mem_lineage hmem hj).symm.trans hk)
    have hsame := hi.methodAt_above hw.lineages hc hmem (Or.inr hmode)
      (fun b hb hbelow => hw.unbound_below hu hr (hw.lineages.live_of_mem_lineage hc hb) hbelow)
      hj hno
    obtain ⟨t', ht', htramp⟩ := hw.isTrampoline_listed hu he hr hj hlisted
    rw [hsame, World.methodAt, tableOf, ha g i r hr, ht'] at ht
    cases ht
    exact htramp

end World

section Reached

variable {host : Host β H} {s : State β (Logged β H)}

/-- Where machines work per call, patched classes have their tables at every moment. -/
theorem Reached.armed_each
    (hb : ∀ b v this args, (host.body b v this args).Uses fun op => op.IsOrdinary = true)
    (hs : Reached host (fun op => op.IsOrdinary = true) s) (hmode : s.world.PerCall)
    {w : World β} (hw : w ∈ s.trail.worlds) : w.Armed := by
  have hlasting := hs.lasting hb
  have hp : w.Preserves s.world := hlasting.preserves hw
  intro g i r hr
  have hlive := (hlasting.sound w hw).orderly.live hr
  have htable := hs.armed hb g i r (hp.grows.resolved hr)
  rw [(hp.classes hmode _ hlive).2] at htable
  exact htable

/-- At every moment, a class at or below a patched one has trampolines for just the listed methods
that it inherits, and they are the patched class's own cells. -/
theorem Reached.trampolines_below
    (hb : ∀ b v this args, (host.body b v this args).Uses fun op => op.IsOrdinary = true)
    (hs : Reached host (fun op => op.IsOrdinary = true) s) (hmode : s.world.PerCall)
    (hu : s.world.Unstacked) {w : World β} (hw : w ∈ s.trail.worlds) {v : VmRef} {c : ClassRef}
    {g : RegistryRef} {i k : Nat} {r : Resolution} {name : String} (hc : w.Registered v c)
    (hr : w.Resolves g i r) (hmem : r.cls ∈ w.lineage c) (hk : w.slotOf c name = some k) :
    ∃ t, w.methodAt c k = some t ∧
      ((w.content t).isTrampoline = true ↔ (w.entry g i).row.intercepts name = true ∧
        (w.slotOf r.cls name).isSome = true ∧ ¬ w.Overridden c r.cls name) ∧
      ((w.content t).isTrampoline = true → (w.tables.get r.intercepted)[k]? = some t) := by
  have hlasting := hs.lasting hb
  obtain ⟨hsound, hi⟩ := (upheld_inherits.ordered hb hs).each w hw
  have hgrows : w.Grows s.world := (hlasting.preserves hw).grows
  have hunstacked := hu.of_grows hsound hgrows
  have hpercall := hgrows.perCall hmode
  have hexact := hlasting.exact w hw hpercall
  have hlive := hsound.homes.live hc
  obtain ⟨t, ht⟩ := hsound.methodAt hlive hk
  refine ⟨t, ht, ?_, fun htramp => ?_⟩
  · exact hsound.isTrampoline_iff hunstacked hpercall hexact (hs.armed_each hb hmode hw) hi hlive
      hr hmem hk ht
  · exact (hsound.inherited hunstacked hexact hlive hr hmem hk ht htramp).1

/-- Where no field is written by hand, an allocated instance of such a class has a new handler of
the row's handler class, to itself. -/
theorem Reached.allocates_own
    (hb : ∀ b v this args, (host.body b v this args).Uses fun op => op.KeepsFields = true)
    (hs : Reached host (fun op => op.KeepsFields = true) s) (hu : s.world.Unstacked)
    {w w' : World β} (hw : w ∈ s.trail.worlds) {v : VmRef} {c : ClassRef} {g : RegistryRef}
    {i : Nat} {r : Resolution} {o : ObjectRef} (hc : w.Registered v c) (hr : w.Resolves g i r)
    (hmem : r.cls ∈ w.lineage c) (hallocate : w.allocate v c = (.value o, w')) :
    ¬ w.objects.Live o ∧ w'.classOf o = c ∧
      w.className r.handlerClass = (w.entry g i).row.handlerClass ∧
      ∃ h, ¬ w.objects.Live h ∧ w'.OwnHandler o r h ∧
        (w'.isProxyInstance v o = false → w'.handlerOf v (w'.coreOf v) o = some h) := by
  have hlasting := (hs.mono Op.KeepsFields.isOrdinary).lasting fun b v this args =>
    (hb b v this args).mono Op.KeepsFields.isOrdinary
  obtain ⟨hsound, howned⟩ := (upheld_owned.ordered hb hs).each w hw
  have hunstacked := hu.of_grows hsound (hlasting.preserves hw).grows
  obtain ⟨rfl, hrow⟩ := hsound.interceptionOf hunstacked hc hr hmem
  obtain ⟨u, -, -, hname⟩ := hsound.filled.handler hr
  have hallocates := howned.allocates v c
  have honly := World.onlyObjects_allocate w v c
  rw [hallocate] at hallocates honly
  obtain ⟨hfresh, -, hcls, -, -⟩ := hallocates.value rfl
  obtain ⟨h, hnew, hown⟩ := hallocates.ownHandler hrow
  refine ⟨hfresh, hcls, hname, h, hnew, hown, fun hproxy => ?_⟩
  have hcore : w'.coreOf v = w.coreOf v := (honly.alike v).core
  rw [World.handlerOf, hproxy, hcore, honly.interceptionOf, hcls, hrow]
  show (w'.field? o r.handlerOffset).bind Value.asObject? = some h
  rw [hown.field]
  rfl

/-- A handler that an object has to itself at one moment it has to itself at all later ones. -/
theorem Reached.keeps_own
    (hb : ∀ b v this args, (host.body b v this args).Uses fun op => op.KeepsFields = true)
    (hs : Reached host (fun op => op.KeepsFields = true) s) :
    s.trail.worlds.Pairwise fun later earlier => ∀ o r h,
      earlier.OwnHandler o r h → later.OwnHandler o r h := by
  have howned := upheld_owned.ordered hb hs
  refine howned.ordered.imp_of_mem fun {later earlier} hlater hearlier hkeeps o r h hown => ?_
  exact hown.of_keeps (howned.each earlier hearlier).2 (howned.each later hlater).2 hkeeps.2

/-- **A subclass inherits exactly the trampolines it does not override.**  In a run of ordinary
bodies on machines that work per call, where rows are not stacked, this is so at every moment for
every class at or below a patched one, wherever it was defined: the cell for a name is a trampoline
if and only if the row lists the name, the patched class has it, and no class between declares it;
and then it is the patched class's own cell.  Where moreover no field is written by hand, an
allocated instance has a new handler of the row's handler class, which is nobody else's then or
later. -/
theorem Reached.inherits_trampolines
    (hb : ∀ b v this args, (host.body b v this args).Uses fun op => op.IsOrdinary = true)
    (hs : Reached host (fun op => op.IsOrdinary = true) s) (hmode : s.world.PerCall)
    (hu : s.world.Unstacked) :
    (∀ w ∈ s.trail.worlds, ∀ v c g i r, w.Registered v c → w.Resolves g i r →
      r.cls ∈ w.lineage c → ∀ name k, w.slotOf c name = some k →
        ∃ t, w.methodAt c k = some t ∧
          ((w.content t).isTrampoline = true ↔ (w.entry g i).row.intercepts name = true ∧
            (w.slotOf r.cls name).isSome = true ∧ ¬ w.Overridden c r.cls name) ∧
          ((w.content t).isTrampoline = true → (w.tables.get r.intercepted)[k]? = some t)) ∧
    ((∀ b v this args, (host.body b v this args).Uses fun op => op.KeepsFields = true) →
      Reached host (fun op => op.KeepsFields = true) s →
      (∀ w ∈ s.trail.worlds, ∀ v c g i r, w.Registered v c → w.Resolves g i r →
        r.cls ∈ w.lineage c → ∀ o w', w.allocate v c = (.value o, w') →
          ¬ w.objects.Live o ∧ w'.classOf o = c ∧
          w.className r.handlerClass = (w.entry g i).row.handlerClass ∧
          ∃ h, ¬ w.objects.Live h ∧ w'.OwnHandler o r h ∧
            (w'.isProxyInstance v o = false → w'.handlerOf v (w'.coreOf v) o = some h)) ∧
      s.trail.worlds.Pairwise fun later earlier => ∀ o r h,
        earlier.OwnHandler o r h → later.OwnHandler o r h) := by
  refine ⟨fun w hw v c g i r hc hr hmem name k hk => ?_, fun hbodies hreached => ⟨?_, ?_⟩⟩
  · exact hs.trampolines_below hb hmode hu hw hc hr hmem hk
  · intro w hw v c g i r hc hr hmem o w' hallocate
    exact hreached.allocates_own hbodies hu hw hc hr hmem hallocate
  · exact hreached.keeps_own hbodies

end Reached

/-! ### The demonstration -/

namespace Demo

/-- A host whose activity defines a class below its own when it is resumed. -/
def lateHost : Host Body Tally where
  body
    | .invoke => invoke
    | .onResume => fun v _ _ => .call (.define v subactivityDecl) fun _ => onResume

theorem uses_lateHost {allowed : Op Body → Prop} (hdefine : ∀ {v d}, allowed (.define v d))
    (hcall : ∀ {v caller m this args}, allowed (.callMethod v caller m this args)) (b : Body)
    (v : VmRef) (this : ObjectRef) (args : List Value) :
    (lateHost.body b v this args).Uses allowed := by
  cases b with
  | onResume => exact ⟨hdefine, fun _ _ _ => trivial⟩
  | invoke => exact uses_callMethod hcall .invoke v this args

/-- The state after the activity was called, and the class below it defined. -/
def late (mode : SwapMode) : State Body (Logged Body Tally) :=
  ((opening ⟨0⟩).lift.start lateHost.logged
    ⟨(World.newVm {} { mode, maxDepth }).2, {}, ({}, [])⟩).2

theorem reached_late {allowed : Op Body → Prop} (hdefine : ∀ {v d}, allowed (.define v d))
    (hallocate : ∀ {v c}, allowed (.allocate v c))
    (hcall : ∀ {v this name args}, allowed (.callVirtual v this name args)) (mode : SwapMode) :
    Reached lateHost allowed (late mode) := by
  have hmachine : Reached lateHost allowed _ := .newVm ({} : Tally) { mode, maxDepth }
  exact hmachine.run (opening ⟨0⟩) (uses_opening hdefine hallocate hcall ⟨0⟩)

/-- What was settled for the activity. -/
def activityResolution (w : World Body) : Resolution := (w.entry ⟨0⟩ 0).resolution.getD default

/-- Defined while the handler runs, the class has the activity's trampoline, and an instance
has a handler of its own. -/
theorem inherits_late :
    (late .perCall).world.className ⟨4⟩ = subactivityName ∧
    (∃ t, (late .perCall).world.methodAt ⟨4⟩ 0 = some t ∧
      ((late .perCall).world.content t).isTrampoline = true ∧
      ((late .perCall).world.tables.get
        (activityResolution (late .perCall).world).intercepted)[0]? = some t) ∧
    ∃ o w h, (late .perCall).world.allocate ⟨0⟩ ⟨4⟩ = (.value o, w) ∧
      w.OwnHandler o (activityResolution (late .perCall).world) h := by
  have hreg : (late .perCall).world.Registered ⟨0⟩ ⟨4⟩ := by decide +kernel
  have hres : (late .perCall).world.Resolves ⟨0⟩ 0
      (activityResolution (late .perCall).world) := by decide +kernel
  have hmem : (activityResolution (late .perCall).world).cls ∈
      (late .perCall).world.lineage ⟨4⟩ := by decide +kernel
  have hslot : (late .perCall).world.slotOf ⟨4⟩ methodName = some 0 := by decide +kernel
  have hvalue : ((late .perCall).world.allocate ⟨0⟩ ⟨4⟩).1 = .value ⟨2⟩ := by decide +kernel
  have huses : ∀ b v this args,
      (lateHost.body b v this args).Uses fun op => op.KeepsFields = true := uses_lateHost rfl rfl
  have hkeeping : Reached lateHost (fun op => op.KeepsFields = true) (late .perCall) :=
    reached_late rfl rfl rfl .perCall
  obtain ⟨hcells, hinstances⟩ := Reached.inherits_trampolines (uses_lateHost rfl rfl)
    (reached_late rfl rfl rfl .perCall) (by decide +kernel) (by decide +kernel)
  obtain ⟨hallocates, -⟩ := hinstances huses hkeeping
  obtain ⟨t, ht, hiff, hsame⟩ := hcells (late .perCall).world List.mem_cons_self ⟨0⟩ ⟨4⟩ ⟨0⟩ 0
    (activityResolution (late .perCall).world) hreg hres hmem methodName 0 hslot
  have htramp := hiff.mpr (by decide +kernel)
  obtain ⟨-, -, -, h, -, hown, -⟩ := hallocates (late .perCall).world List.mem_cons_self ⟨0⟩ ⟨4⟩
    ⟨0⟩ 0 (activityResolution (late .perCall).world) hreg hres hmem ⟨2⟩ _ (Prod.ext hvalue rfl)
  exact ⟨by decide +kernel, ⟨t, ht, htramp, hsame htramp⟩, ⟨2⟩, _, h, Prod.ext hvalue rfl, hown⟩

end Demo

end Interception
