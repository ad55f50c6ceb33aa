/-
The classes a machine knows.

A machine numbers its classes in the order they were published and finds them by number and
by name.  The number is settled when a class is linked and used when it is published, and in
between the class is patched, which looks other classes up; and names lead to numbers by a map
of their own.  `Catalogued` says that all this stays in step: every class is where its number
says and is found under its name, and above every class but the root there is one with a
smaller number.

Whether a class can be defined is settled by two names, its own and its superclass's.  What a
row says, and whether the class can be patched under it, makes no difference, and a definition
that is refused leaves nothing behind.
-/
import Interception.Proofs.Soundness

namespace Interception

variable {β H : Type}

/-! ### Looking up by name -/

namespace ClassRegistry

theorem contains_iff {g : ClassRegistry} {name : String}
    (hg : ∀ {n}, g.numbers.lookup name = some n → ∃ c, g.byNumber? n = some c) :
    g.contains name = true ↔ ∃ c, g.byName? name = some c := by
  rw [contains, Option.isSome_iff_exists, byName?]
  constructor
  · rintro ⟨n, hn⟩
    obtain ⟨c, hc⟩ := hg hn
    exact ⟨c, by rw [hn, Option.bind_some, hc]⟩
  · rintro ⟨c, hc⟩
    obtain ⟨n, hn, -⟩ := Option.bind_eq_some_iff.mp hc
    exact ⟨n, hn⟩

/-- A class registered in the next position is found under its name, and every other name leads
to where it led before. -/
theorem byName?_register {g : ClassRegistry}
    (hg : ∀ {name n}, g.numbers.lookup name = some n → ∃ c, g.byNumber? n = some c)
    (name : String) (c : ClassRef) (x : String) :
    (g.register name g.next c).byName? x = if x = name then some c else g.byName? x := by
  rw [byName?, lookup_register]
  split
  · exact Array.getElem?_push_size
  · rw [byName?]
    cases hn : g.numbers.lookup x with
    | none => rfl
    | some n =>
      obtain ⟨a, ha⟩ := hg hn
      rw [Option.bind_some, Option.bind_some, ha]
      exact getElem?_register.mpr (Or.inl ha)

end ClassRegistry

namespace World

variable {w w' : World β} {v : VmRef} {c s : ClassRef} {d : ClassDecl β} {name : String}

theorem Homes.byNumber? (h : w.Homes) {n : Nat}
    (hn : (w.vms.get v).classes.numbers.lookup name = some n) :
    ∃ c, (w.vms.get v).classes.byNumber? n = some c := by
  obtain ⟨c, hc, -⟩ := h.named hn
  exact ⟨c, hc⟩

theorem Homes.contains_iff (h : w.Homes) :
    (w.vms.get v).classes.contains name = true ↔ ∃ c, w.findClass v name = some c :=
  ClassRegistry.contains_iff h.byNumber?

theorem Homes.contains_eq_false_iff (h : w.Homes) :
    (w.vms.get v).classes.contains name = false ↔ w.findClass v name = none := by
  rw [← Bool.not_eq_true, h.contains_iff, Option.eq_none_iff_forall_ne_some, not_exists]

theorem Homes.number_lt (h : w.Homes) (hc : w.Registered v c) :
    (w.classes.get c).number < (w.vms.get v).classes.next := by
  obtain ⟨n, hlt, hn⟩ := Array.mem_iff_getElem.mp hc
  rw [h.numbered (Array.getElem?_eq_some_iff.mpr ⟨hlt, hn⟩)]
  exact hlt

/-! ### Catalogues -/

/-- The root of a machine is one of its classes and has none above it. -/
structure Rooted (w : World β) (v : VmRef) : Prop where
  root : w.Registered v (w.vms.get v).root
  named : w.className (w.vms.get v).root = rootClassName
  top : (w.classes.get (w.vms.get v).root).super? = none

/-- A class that is not the root is below one with a smaller number. -/
def Below (w : World β) (v : VmRef) (c : ClassRef) : Prop :=
  c = (w.vms.get v).root ∨ ∃ s, (w.classes.get c).super? = some s ∧ w.Registered v s ∧
    (w.classes.get s).number < (w.classes.get c).number

/-- A machine finds its classes by name, and has them in order below its root. -/
structure Catalogued (w : World β) (v : VmRef) : Prop where
  rooted : w.Rooted v
  found : ∀ {c}, w.Registered v c → w.findClass v (w.className c) = some c
  below : ∀ {c}, w.Registered v c → w.Below v c

theorem super?_of_grows (hg : w.Grows w') (hc : w.classes.Live c) :
    (w'.classes.get c).super? = (w.classes.get c).super? :=
  congrArg List.head? (hg.classes c hc).2.ancestors

theorem Rooted.of_grows (h : w.Rooted v) (hh : w.Homes) (hg : w.Grows w') : w'.Rooted v := by
  have hroot : (w'.vms.get v).root = (w.vms.get v).root := (hg.vms v h.root.live_vm).2.root
  have hlive := hh.live h.root
  refine ⟨?_, ?_, ?_⟩
  · rw [hroot]
    exact h.root.of_grows hg
  · rw [hroot, hg.className hlive]
    exact h.named
  · rw [hroot, super?_of_grows hg hlive]
    exact h.top

theorem Below.of_grows (h : w.Below v c) (hc : w.Registered v c) (hh : w.Homes)
    (hg : w.Grows w') : w'.Below v c := by
  rcases h with hroot | ⟨s, hs, hreg, hlt⟩
  · exact Or.inl (hroot.trans (hg.vms v hc.live_vm).2.root.symm)
  · refine Or.inr ⟨s, (super?_of_grows hg (hh.live hc)).trans hs, hreg.of_grows hg, ?_⟩
    rw [(hg.classes s (hh.live hreg)).2.number, (hg.classes c (hh.live hc)).2.number]
    exact hlt

namespace Catalogued

/-- Where the machine learns of no class. -/
theorem of_grows (h : w.Catalogued v) (hh : w.Homes) (hg : w.Grows w')
    (hclasses : (w'.vms.get v).classes = (w.vms.get v).classes) : w'.Catalogued v := by
  have hback : ∀ {c}, w'.Registered v c → w.Registered v c := fun {c} hc => by
    rw [Registered, hclasses] at hc
    exact hc
  refine ⟨h.rooted.of_grows hh hg, fun {c} hc => ?_, fun {c} hc => ?_⟩
  · rw [findClass, hclasses, hg.className (hh.live (hback hc))]
    exact h.found (hback hc)
  · exact (h.below (hback hc)).of_grows (hback hc) hh hg

/-- Above a class the numbers get smaller, and the last class is the root. -/
theorem lineage (h : w.Catalogued v) (hl : w.Lineages) (hc : w.Registered v c) :
    (w.lineage c).getLast? = some (w.vms.get v).root ∧
    ((w.lineage c).map fun a => (w.classes.get a).number).Pairwise (· > ·) := by
  -- The superclass has a smaller number, which the induction is on.
  induction hn : (w.classes.get c).number using Nat.strongRecOn generalizing c with
  | _ n ih =>
    subst hn
    rcases h.below hc with rfl | ⟨s, hs, hreg, hlt⟩
    · have htop : w.ancestors (w.vms.get v).root = [] := List.head?_eq_none_iff.mp h.rooted.top
      rw [lineage_eq, htop]
      exact ⟨rfl, List.pairwise_singleton _ _⟩
    · obtain ⟨hlast, hless⟩ := ih _ hlt hreg rfl
      rw [lineage_eq, hl.headed hs, List.map_cons, List.pairwise_cons]
      refine ⟨?_, fun n hn => ?_, hless⟩
      · rw [lineage_eq] at hlast ⊢
        rw [List.getLast?_cons_cons]
        exact hlast
      · rw [lineage_eq, List.map_cons] at hn hless
        rcases List.mem_cons.mp hn with rfl | habove
        · exact hlt
        · exact Nat.lt_trans ((List.pairwise_cons.mp hless).1 n habove) hlt

end Catalogued

/-! ### Defining a class -/

/-- What defining a class makes of a world. -/
structure Defined (w : World β) (v : VmRef) (d : ClassDecl β) (c : ClassRef) (w' : World β) :
    Prop where
  /-- The class was not there before. -/
  fresh : ¬ w.classes.Live c
  super : ∃ s, w.findClass v (d.extends?.getD rootClassName) = some s ∧
    w'.ancestors c = w.lineage s
  number : (w'.classes.get c).number = (w.vms.get v).classes.next
  /-- It is published in the next position and under its name, and whatever else is found by
  number or name is what was found before. -/
  classes : (w'.vms.get v).classes =
    (w.vms.get v).classes.register d.name (w.vms.get v).classes.next c
  found : ∀ name, w'.findClass v name = if name = d.name then some c else w.findClass v name
  others : ∀ u, u ≠ v → (w'.vms.get u).classes = (w.vms.get u).classes

/-- A definition makes this of the world if it makes anything of it. -/
theorem Homes.defined (hh : w.Homes) (hd : w.define v d = .ok (c, w')) : w.Defined v d c w' := by
  obtain ⟨rfl, s, hs, rfl⟩ := define_enrolls hd
  have hlive : (w.link d (w.vms.get v).classes.next (some s)).2.vms.Live v :=
    (hh.of_findClass hs).1.live_vm
  have hnew := get_link_next w d (w.vms.get v).classes.next (some s)
  have halike := (sameClasses_enroll (w.link d (w.vms.get v).classes.next (some s)).2 v
    w.classes.next).alike w.classes.next
  have hclasses := classes_enroll_self (c := w.classes.next) hlive
  rw [className, hnew.name, hnew.position] at hclasses
  exact
    { fresh := w.classes.not_live_next
      super := ⟨s, hs, halike.ancestors.trans hnew.ancestors⟩
      number := halike.number.trans hnew.position
      classes := hclasses
      found := fun name => by
        rw [findClass, hclasses]
        exact ClassRegistry.byName?_register hh.byNumber? d.name _ name
      others := fun u hu => classes_enroll_of_ne hu }

theorem Defined.registered_iff (h : w.Defined v d c w') {a : ClassRef} :
    w'.Registered v a ↔ w.Registered v a ∨ a = c := by
  rw [Registered, h.classes, ClassRegistry.register, Array.mem_push, Registered]

section Outcomes

variable (hh : w.Homes)
include hh

/-- A name in use is refused, whatever the superclass. -/
theorem Homes.define_duplicate (hname : w.findClass v d.name = some c) :
    w.define v d = .error (.duplicateClass d.name) := by
  have hused := hh.contains_iff.mpr ⟨c, hname⟩
  simp only [define, hused, if_true]

/-- A free name is refused where the superclass is not there. -/
theorem Homes.define_orphan (hname : w.findClass v d.name = none)
    (hsuper : w.findClass v (d.extends?.getD rootClassName) = none) :
    w.define v d = .error (.classNotFound (d.extends?.getD rootClassName)) := by
  have hfree := hh.contains_eq_false_iff.mpr hname
  rw [findClass] at hsuper
  simp only [define, hfree, hsuper, Bool.false_eq_true, if_false]

/-- Nothing else is refused, whatever row there is for the class. -/
theorem Homes.define_ok (hname : w.findClass v d.name = none)
    (hsuper : w.findClass v (d.extends?.getD rootClassName) = some s) :
    ∃ c w', w.define v d = .ok (c, w') := by
  have hfree := hh.contains_eq_false_iff.mpr hname
  rw [findClass] at hsuper
  simp only [define, hfree, hsuper, Bool.false_eq_true, if_false]
  exact ⟨_, _, rfl⟩

/-- A class can be defined if and only if its name is free and its superclass is there. -/
theorem Homes.define_ok_iff : (∃ c w', w.define v d = .ok (c, w')) ↔
    w.findClass v d.name = none ∧ ∃ s, w.findClass v (d.extends?.getD rootClassName) = some s := by
  constructor
  · rintro ⟨c, w', hd⟩
    obtain ⟨hfree, -, s, hs, -⟩ := define_eq_ok hd
    exact ⟨hh.contains_eq_false_iff.mp hfree, s, hs⟩
  · rintro ⟨hname, s, hs⟩
    exact hh.define_ok hname hs

/-- What is wrong with the name is said before what is wrong with the superclass. -/
theorem Homes.define_error {e : VmError} (hd : w.define v d = .error e) :
    e = .duplicateClass d.name ∧ (∃ c, w.findClass v d.name = some c) ∨
    e = .classNotFound (d.extends?.getD rootClassName) ∧ w.findClass v d.name = none ∧
      w.findClass v (d.extends?.getD rootClassName) = none := by
  cases hname : w.findClass v d.name with
  | some c =>
    rw [hh.define_duplicate hname] at hd
    exact Or.inl ⟨(Except.error.inj hd).symm, c, rfl⟩
  | none =>
    cases hsuper : w.findClass v (d.extends?.getD rootClassName) with
    | none =>
      rw [hh.define_orphan hname hsuper] at hd
      exact Or.inr ⟨(Except.error.inj hd).symm, rfl, rfl⟩
    | some s =>
      obtain ⟨c, w', hok⟩ := hh.define_ok hname hsuper
      rw [hok] at hd
      cases hd

end Outcomes

/-! ### What keeps catalogues -/

namespace Catalogued

theorem define (h : w.Catalogued v) (hw : w.Sound) (hd : w.define v d = .ok (c, w')) :
    w'.Catalogued v := by
  have hg := (extends_define hd).grows
  have hdef := hw.homes.defined hd
  obtain ⟨hfree, -⟩ := hw.homes.define_ok_iff.mp ⟨c, w', hd⟩
  have hself : w'.findClass v d.name = some c := by rw [hdef.found, if_pos rfl]
  obtain ⟨hreg, hname⟩ := (hw.define hd).1.homes.of_findClass hself
  refine ⟨h.rooted.of_grows hw.homes hg, fun {a} ha => ?_, fun {a} ha => ?_⟩
  · rcases hdef.registered_iff.mp ha with hold | rfl
    · have hfound := h.found hold
      rw [hdef.found, hg.className (hw.homes.live hold), if_neg, hfound]
      intro hsame
      rw [hsame, hfree] at hfound
      cases hfound
    · rw [hname]
      exact hself
  · rcases hdef.registered_iff.mp ha with hold | rfl
    · exact (h.below hold).of_grows hold hw.homes hg
    · obtain ⟨s, hs, hanc⟩ := hdef.super
      obtain ⟨hsreg, -⟩ := hw.homes.of_findClass hs
      refine Or.inr ⟨s, congrArg List.head? hanc, hsreg.of_grows hg, ?_⟩
      rw [hdef.number, (hg.classes s (hw.homes.live hsreg)).2.number]
      exact hw.homes.number_lt hsreg

theorem define_other {u : VmRef} (h : w.Catalogued u) (hw : w.Sound)
    (hd : w.define v d = .ok (c, w')) : w'.Catalogued u := by
  by_cases hu : u = v
  · subst hu
    exact h.define hw hd
  · exact h.of_grows hw.homes (extends_define hd).grows ((hw.homes.defined hd).others u hu)

end Catalogued

/-! ### A new machine -/

section Machine

variable (w) (options : VmOptions) (core : Core)

theorem className_bareMachine :
    (w.bareMachine options core).className w.classes.next = rootClassName ∧
    (w.bareMachine options core).className ⟨w.classes.size + 1⟩ = proxyClassName := by
  have hroot := get_link_next w { name := rootClassName } 0 none
  have hproxy := get_link_next w.rootLinked
    { name := proxyClassName, fields := [⟨handlerFieldName, handlerFieldType⟩] } 1
    (some w.classes.next)
  have hkeep := get_link_of_ne w.rootLinked
    { name := proxyClassName, fields := [⟨handlerFieldName, handlerFieldType⟩] } 1
    (some w.classes.next) (c := w.classes.next) fun he => by
      rw [next_rootLinked] at he
      exact Nat.succ_ne_self _ (congrArg Ref.index he).symm
  rw [next_rootLinked] at hproxy
  rw [className, className, classes_bareMachine, hkeep, hproxy.name]
  exact ⟨hroot.name, rfl⟩

/-- A new machine knows its two classes. -/
theorem classes_newVmAround_self : ((w.newVmAround options core).2.vms.get w.vms.next).classes =
    ⟨#[w.classes.next, ⟨w.classes.size + 1⟩], [(proxyClassName, 1), (rootClassName, 0)]⟩ := by
  have hlive : (w.bareMachine options core).vms.Live w.vms.next := Store.live_next_add _ _
  have hsame := (sameClasses_enroll (w.bareMachine options core) w.vms.next w.classes.next).alike
    ⟨w.classes.size + 1⟩
  obtain ⟨-, -, hrootNumber, hproxyNumber⟩ := ancestors_bareMachine options core w
  obtain ⟨hrootName, hproxyName⟩ := className_bareMachine w options core
  rw [newVmAround_enrolls, classes_enroll_self (live_enroll.mpr hlive), classes_enroll_self hlive,
    vmClasses_bareMachine, Store.get_of_not_live w.vms.not_live_next, hrootNumber, hrootName,
    hsame.number, hproxyNumber, (sameClasses_enroll _ _ _).className, hproxyName]
  rfl

theorem classes_newVmAround_of_ne {u : VmRef} (hu : u ≠ w.vms.next) :
    ((w.newVmAround options core).2.vms.get u).classes = (w.vms.get u).classes := by
  rw [newVmAround_enrolls, classes_enroll_of_ne hu, classes_enroll_of_ne hu,
    vmClasses_bareMachine]

end Machine

theorem catalogued_newVmAround (hw : w.Sound) (options : VmOptions) (core : Core) :
    (w.newVmAround options core).2.Catalogued w.vms.next := by
  have hclasses := classes_newVmAround_self w options core
  have hg : (w.bareMachine options core).Grows (w.newVmAround options core).2 := by
    rw [newVmAround_enrolls]
    exact ((extends_enroll _ _ (Nat.zero_le _)).trans (extends_enroll _ _ (Nat.zero_le _))).grows
  have hhomes := (hw.newVmAround options core).homes
  have hlive : (w.bareMachine options core).vms.Live w.vms.next := Store.live_next_add _ _
  have hsize := size_bareMachine w options core
  have hrootLive : (w.bareMachine options core).classes.Live w.classes.next := by
    rw [Store.Live, hsize]
    exact Nat.lt_add_of_pos_right Nat.two_pos
  have hproxyLive : (w.bareMachine options core).classes.Live ⟨w.classes.size + 1⟩ := by
    rw [Store.Live, hsize]
    exact Nat.lt_succ_self _
  obtain ⟨hrootAnc, hproxyAnc, hrootNumber, hproxyNumber⟩ := ancestors_bareMachine options core w
  obtain ⟨hrootName, hproxyName⟩ := className_bareMachine w options core
  have hroot : ((w.newVmAround options core).2.vms.get w.vms.next).root = w.classes.next := by
    rw [(hg.vms _ hlive).2.root, get_bareMachine]
  generalize (w.newVmAround options core).2 = x at *
  generalize w.bareMachine options core = b at *
  have hreg : ∀ {a}, x.Registered w.vms.next a ↔
      a = w.classes.next ∨ a = ⟨w.classes.size + 1⟩ := fun {a} => by
    rw [Registered, hclasses]
    simp
  refine ⟨⟨?_, ?_, ?_⟩, fun {a} ha => ?_, fun {a} ha => ?_⟩
  · rw [hroot]
    exact hreg.mpr (Or.inl rfl)
  · rw [hroot, hg.className hrootLive, hrootName]
  · rw [hroot, super?_of_grows hg hrootLive]
    exact congrArg List.head? hrootAnc
  · rw [findClass, hclasses]
    rcases hreg.mp ha with rfl | rfl
    · rw [hg.className hrootLive, hrootName]
      rfl
    · rw [hg.className hproxyLive, hproxyName]
      rfl
  · rcases hreg.mp ha with rfl | rfl
    · exact Or.inl hroot.symm
    · refine Or.inr ⟨w.classes.next, ?_, hreg.mpr (Or.inl rfl), ?_⟩
      · rw [super?_of_grows hg hproxyLive]
        exact congrArg List.head? hproxyAnc
      · rw [(hg.classes _ hrootLive).2.number, (hg.classes _ hproxyLive).2.number, hrootNumber,
          hproxyNumber]
        exact Nat.one_pos

/-- Every machine has its classes in order. -/
def AllCatalogued (w : World β) : Prop := ∀ v, w.vms.Live v → w.Catalogued v

theorem AllCatalogued.newVmAround (h : w.AllCatalogued) (hw : w.Sound) (options : VmOptions)
    (core : Core) : (w.newVmAround options core).2.AllCatalogued := by
  intro u hu
  rw [newVmAround_enrolls, live_enroll, live_enroll] at hu
  rcases (Store.live_add_iff _ _ _).mp hu with hold | rfl
  · exact (h u hold).of_grows hw.homes (extends_newVmAround w options core).grows
      (classes_newVmAround_of_ne w options core hold.ne_next)
  · exact catalogued_newVmAround hw options core

end World

/-- Ordinary runs keep catalogues. -/
theorem upheld_catalogued : Upheld (β := β) (fun op => op.IsOrdinary = true)
    World.AllCatalogued (fun _ _ => True) where
  ordinary h := h
  start _ hv := absurd hv (Nat.not_lt_zero _)
  refl := trivial
  trans _ _ _ _ _ _ := trivial
  registry rows hw h := ⟨fun v hv => (h v hv).of_grows hw.homes
    (World.extends_newRegistry 0 _ rows).grows rfl, trivial⟩
  machine options core hw h := ⟨h.newVmAround hw options core, trivial⟩
  define {w w' v d c} hw h hd := by
    refine ⟨fun u hu => ?_, trivial⟩
    have hlive : w.vms.Live u := by
      obtain ⟨-, s, -, rfl⟩ := World.define_enrolls hd
      rw [World.live_enroll] at hu
      exact hu
    exact (h u hlive).define_other hw hd
  objects {w w'} hw h hstep := by
    have honly := hstep.onlyObjects
    refine ⟨fun u hu => (h u ((honly.liveVms u).mp hu)).of_grows hw.homes (honly.toExtends 0).grows
      ?_, trivial⟩
    obtain ⟨n, hn⟩ := honly.vms u
    rw [hn]
  opening {w th v this m _} hw h _ _ := by
    have hshift := World.shifts_openWindow w th v (w.coreOf v) this m
    refine ⟨fun u hu => ?_, trivial⟩
    rw [hshift.vms] at hu
    exact (h u hu).of_grows hw.homes hshift.grows (by rw [hshift.vms])
  closing {w x th v this m _ t} _ _ _ _ hx h _ _ := by
    have hshift := World.shifts_closeWindow x t (w.openWindow th v (w.coreOf v) this m).1
    refine ⟨fun u hu => ?_, trivial⟩
    rw [hshift.vms] at hu
    exact (h u hu).of_grows hx.homes hshift.grows (by rw [hshift.vms])

/-- **A machine's classes stay in order.**  At every moment of a run of ordinary bodies, with
any number of machines and tables, a machine finds each of its classes by its number and by its
name, and nothing else; all of them are initialized, and above each but the root there is one
with a smaller number, so that every lineage ends in the root.  A class can be defined if and
only if its name is free and its superclass is there.  It then takes the next number and changes
nothing that was found before, and otherwise nothing changes at all. -/
theorem Reached.catalogued {host : Host β H} {s : State β (Logged β H)}
    (hb : ∀ b v this args, (host.body b v this args).Uses fun op => op.IsOrdinary = true)
    (hs : Reached host (fun op => op.IsOrdinary = true) s) {w : World β} {th : Thread}
    (hat : s.trail.At w th) {v : VmRef} (hv : w.vms.Live v) :
    (∀ n c, (w.vms.get v).classes.byNumber? n = some c ↔
      w.Registered v c ∧ (w.classes.get c).number = n) ∧
    (∀ name c, w.findClass v name = some c ↔ w.Registered v c ∧ w.className c = name) ∧
    (∀ c, w.Registered v c → (w.classes.get c).initialized = true ∧ w.Below v c ∧
      (w.lineage c).getLast? = some (w.vms.get v).root ∧
      ((w.lineage c).map fun a => (w.classes.get a).number).Pairwise (· > ·)) ∧
    w.Rooted v ∧
    ∀ d : ClassDecl β,
      ((∃ c w', w.define v d = .ok (c, w')) ↔ w.findClass v d.name = none ∧
        ∃ s, w.findClass v (d.extends?.getD rootClassName) = some s) ∧
      (∀ c w', w.define v d = .ok (c, w') → w.Defined v d c w' ∧ w'.Catalogued v) ∧
      ∀ e, w.define v d = .error e →
        (e = .duplicateClass d.name ∧ (∃ c, w.findClass v d.name = some c) ∨
          e = .classNotFound (d.extends?.getD rootClassName) ∧ w.findClass v d.name = none ∧
            w.findClass v (d.extends?.getD rootClassName) = none) ∧
        ∀ exec h, (Op.define v d).run host exec ⟨w, th, h⟩ = (.error e, ⟨w, th, h⟩) := by
  obtain ⟨hw, hall⟩ := upheld_catalogued.everywhere hb hs hat
  have hcat := hall v hv
  refine ⟨fun n c => ⟨fun hc => ⟨Array.mem_of_getElem? hc, hw.homes.numbered hc⟩, ?_⟩,
    fun name c => ⟨hw.homes.of_findClass, ?_⟩,
    fun c hc => ⟨hw.homes.ready hc, hcat.below hc, hcat.lineage hw.lineages hc⟩, hcat.rooted,
    fun d => ⟨hw.homes.define_ok_iff, fun c w' hd => ⟨hw.homes.defined hd, hcat.define hw hd⟩,
      fun e hd => ⟨hw.homes.define_error hd, fun exec h => ?_⟩⟩⟩
  · rintro ⟨hc, rfl⟩
    obtain ⟨n, hlt, hn⟩ := Array.mem_iff_getElem.mp hc
    have hget := Array.getElem?_eq_some_iff.mpr ⟨hlt, hn⟩
    rw [hw.homes.numbered hget]
    exact hget
  · rintro ⟨hc, rfl⟩
    exact hcat.found hc
  · simp only [Op.run, hd]

/-! ### The demonstration -/

namespace Demo

/-- The intercepted class is defined before the class of its handlers. -/
def hasty : Program Body Tally ClassRef := do
  let _ ← Program.perform (.define ⟨0⟩ activityDecl)
  Program.perform (.define ⟨0⟩ handlerDecl)

/-- The state after that. -/
def hastened : State Body (Logged Body Tally) :=
  (hasty.lift.start host.logged ⟨(World.newVm {} { maxDepth }).2, {}, ({}, [])⟩).2

theorem reached_hastened : Reached host (fun op => op.IsOrdinary = true) hastened :=
  (Reached.newVm ({} : Tally) { maxDepth }).run hasty
    (.bind (.perform rfl) fun _ => .perform rfl)

/-- The row could not be settled, and the class is there all the same, below the root.  It
cannot be defined again, and one below it can. -/
theorem catalogued_hastened : (hastened.world.entry ⟨0⟩ 0).isResolved = false ∧
    hastened.world.findClass ⟨0⟩ activityName = some ⟨2⟩ ∧
    (hastened.world.classes.get ⟨2⟩).initialized = true ∧
    (hastened.world.lineage ⟨2⟩).getLast? = some ⟨0⟩ ∧
    hastened.world.define ⟨0⟩ activityDecl = .error (.duplicateClass activityName) ∧
    ∃ c w', hastened.world.define ⟨0⟩ { name := "App.Late", extends? := some activityName } =
      .ok (c, w') := by
  have hlive : hastened.world.vms.Live ⟨0⟩ := by decide +kernel
  have hroot : (hastened.world.vms.get ⟨0⟩).root = ⟨0⟩ := by decide +kernel
  have hfound : hastened.world.findClass ⟨0⟩ activityName = some ⟨2⟩ := by decide +kernel
  have hfree : hastened.world.findClass ⟨0⟩ "App.Late" = none := by decide +kernel
  have hnow : hastened.trail.At hastened.world hastened.thread := hastened.at_present
  obtain ⟨-, hnames, hclasses, -, hdefine⟩ :=
    Reached.catalogued uses_body reached_hastened hnow hlive
  obtain ⟨hinit, -, hlast, -⟩ := hclasses ⟨2⟩ ((hnames _ _).mp hfound).1
  obtain ⟨hagain, -, hrefused⟩ := hdefine activityDecl
  refine ⟨by decide +kernel, hfound, hinit, hroot ▸ hlast, ?_,
    (hdefine { name := "App.Late", extends? := some activityName }).1.mpr
      ⟨hfree, ⟨2⟩, hfound⟩⟩
  cases hd : hastened.world.define ⟨0⟩ activityDecl with
  | ok made =>
    obtain ⟨hnone, -⟩ := hagain.mp ⟨made.1, made.2, hd⟩
    cases hfound.symm.trans hnone
  | error e =>
    rcases (hrefused e hd).1 with ⟨rfl, -⟩ | ⟨-, hnone, -⟩
    · rfl
    · cases hfound.symm.trans hnone

end Demo

end Interception
