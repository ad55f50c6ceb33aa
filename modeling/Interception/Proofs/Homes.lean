/-
Which machine a class belongs to.

A class is published on one machine, together with every class above it, and patched under
the table of that machine's core.  So all entries that were filled in for a lineage belong
to one registry.  `Homes` says this for every published class, and that a machine finds
its classes under their names and numbers; `Filled` says what a filled-in entry holds.

Both are kept because a class enters a machine in one go, as a *newcomer*: its
superclasses are there, nothing derives from it yet, and no entry knows it.
-/
import Interception.Proofs.Lineages

namespace Interception

/-! ### Registering a class -/

namespace ClassRegistry

variable {k : ClassRegistry} {title name : String} {m n : Nat} {a c : ClassRef}

theorem lookup_register :
    (k.register title n c).numbers.lookup name =
      if name = title then some n else k.numbers.lookup name := by
  show ((title, n) :: k.numbers).lookup name = _
  by_cases h : name = title
  · rw [if_pos h, h, List.lookup_cons_self]
  · rw [if_neg h, List.lookup_cons, beq_eq_false_iff_ne.mpr h]

theorem getElem?_register : (k.register title n c).classes[m]? = some a ↔
    k.classes[m]? = some a ∨ (m = k.classes.size ∧ a = c) := by
  show (k.classes.push c)[m]? = some a ↔ _
  by_cases h : m = k.classes.size
  · subst h
    rw [Array.getElem?_push_size, Array.getElem?_eq_none (Nat.le_refl _)]
    simp [eq_comm]
  · rw [Array.getElem?_push, if_neg h]
    simp [h]

end ClassRegistry

namespace World

variable {β : Type} {w w' : World β} {v : VmRef} {c : ClassRef}

/-- The class was published on this machine. -/
def Registered (w : World β) (v : VmRef) (c : ClassRef) : Prop :=
  c ∈ (w.vms.get v).classes.classes

instance (w : World β) (v : VmRef) (c : ClassRef) : Decidable (w.Registered v c) :=
  inferInstanceAs (Decidable (c ∈ (w.vms.get v).classes.classes))

theorem Registered.live_vm (h : w.Registered v c) : w.vms.Live v := by
  by_contra hv
  rw [Registered, Store.get_of_not_live hv] at h
  exact Array.not_mem_empty c h

theorem not_registered_empty : ¬ ({} : World β).Registered v c := fun h =>
  Nat.not_lt_zero _ h.live_vm

theorem Registered.of_grows (h : w.Registered v c) (hg : w.Grows w') : w'.Registered v c :=
  (hg.vms v h.live_vm).2.classes c h

/-- Published classes are found, and the entries of a lineage belong to one registry. -/
structure Homes (w : World β) : Prop where
  live : ∀ {v c}, w.Registered v c → w.classes.Live c
  ready : ∀ {v c}, w.Registered v c → (w.classes.get c).initialized = true
  upward : ∀ {v c a}, w.Registered v c → a ∈ w.lineage c → w.Registered v a
  named : ∀ {v name n}, (w.vms.get v).classes.numbers.lookup name = some n →
    ∃ c, (w.vms.get v).classes.classes[n]? = some c ∧ w.className c = name
  numbered : ∀ {v : VmRef} {n : Nat} {c}, (w.vms.get v).classes.classes[n]? = some c →
    (w.classes.get c).number = n
  registry : ∀ {v c g i r}, w.Registered v c → w.Resolves g i r → r.cls ∈ w.lineage c →
    g = (w.coreOf v).registry

/-- What an entry that was filled in holds. -/
structure Filled (w : World β) : Prop where
  own : ∀ {g i r}, w.Resolves g i r → w.ownEntry g r.cls = some i
  offset : ∀ {g i r}, w.Resolves g i r →
    (w.classes.get r.cls).fieldOffset handlerFieldName handlerFieldType = some r.handlerOffset
  handler : ∀ {g i r}, w.Resolves g i r → ∃ v, w.Registered v r.handlerClass ∧
    (w.coreOf v).registry = g ∧ w.className r.handlerClass = (w.entry g i).row.handlerClass

namespace Homes

theorem empty : ({} : World β).Homes where
  live h := absurd h not_registered_empty
  ready h := absurd h not_registered_empty
  upward h := absurd h not_registered_empty
  named h := by cases h
  numbered h := absurd (Array.mem_of_getElem? h) not_registered_empty
  registry _ h := absurd h.live (Nat.not_lt_zero _)

/-- What a machine finds under a name is a class of that name. -/
theorem of_findClass (h : w.Homes) {name : String} (hc : w.findClass v name = some c) :
    w.Registered v c ∧ w.className c = name := by
  rw [findClass, ClassRegistry.byName?, Option.bind_eq_some_iff] at hc
  obtain ⟨n, hn, hc⟩ := hc
  obtain ⟨a, ha, hname⟩ := h.named hn
  obtain rfl : a = c := Option.some.inj (ha.symm.trans hc)
  exact ⟨Array.mem_of_getElem? hc, hname⟩

/-- Nothing published, and no entry filled in. -/
theorem of_grows (h : w.Homes) (hg : w.Grows w')
    (hvms : ∀ v, (w'.vms.get v).classes = (w.vms.get v).classes)
    (hres : ∀ {g i r}, w'.Resolves g i r → w.Resolves g i r) : w'.Homes := by
  have hback : ∀ {v c}, w'.Registered v c → w.Registered v c := by
    intro v c hc
    rw [Registered, hvms] at hc
    exact hc
  exact
    { live := fun hc => (hg.classes _ (h.live (hback hc))).1
      ready := fun hc => (hg.classes _ (h.live (hback hc))).2.initialized (h.ready (hback hc))
      upward := by
        intro _ _ _ hc ha
        rw [hg.lineage (h.live (hback hc))] at ha
        exact (h.upward (hback hc) ha).of_grows hg
      named := by
        intro v name n hn
        rw [hvms] at hn ⊢
        obtain ⟨c, hc, hname⟩ := h.named hn
        exact ⟨c, hc, (hg.className (h.live (Array.mem_of_getElem? hc))).trans hname⟩
      numbered := by
        intro v n c hc
        rw [hvms] at hc
        exact (hg.classes _ (h.live (Array.mem_of_getElem? hc))).2.number.trans (h.numbered hc)
      registry := by
        intro v c g i r hc hr ha
        rw [hg.lineage (h.live (hback hc))] at ha
        rw [hg.coreOf (hback hc).live_vm]
        exact h.registry (hback hc) (hres hr) ha }

end Homes

namespace Filled

theorem empty : ({} : World β).Filled where
  own h := absurd h.live (Nat.not_lt_zero _)
  offset h := absurd h.live (Nat.not_lt_zero _)
  handler h := absurd h.live (Nat.not_lt_zero _)

variable {g : RegistryRef} {i : Nat} {r : Resolution}

/-- What was filled in stays right. -/
theorem kept (h : w.Filled) (ho : w.Orderly)
    (hlive : ∀ {v c}, w.Registered v c → w.classes.Live c) (hg : w.Grows w')
    (hr : w.Resolves g i r) : w'.ownEntry g r.cls = some i ∧
      (w'.classes.get r.cls).fieldOffset handlerFieldName handlerFieldType =
        some r.handlerOffset ∧
      ∃ v, w'.Registered v r.handlerClass ∧ (w'.coreOf v).registry = g ∧
        w'.className r.handlerClass = (w'.entry g i).row.handlerClass := by
  have hc := hg.classes _ (ho.live hr)
  obtain ⟨v, hv, hcore, hname⟩ := h.handler hr
  refine ⟨(hg.ownEntry hr.live (ho.live hr)).trans (h.own hr), ?_, v, hv.of_grows hg, ?_, ?_⟩
  · rw [hc.2.fieldOffset]
    exact h.offset hr
  · rw [hg.coreOf hv.live_vm]
    exact hcore
  · rw [hg.className (hlive hv), hname, hg.rows g i hr.live]

theorem of_grows (h : w.Filled) (ho : w.Orderly)
    (hlive : ∀ {v c}, w.Registered v c → w.classes.Live c) (hg : w.Grows w')
    (hres : ∀ {g i r}, w'.Resolves g i r → w.Resolves g i r) : w'.Filled where
  own hr := (h.kept ho hlive hg (hres hr)).1
  offset hr := (h.kept ho hlive hg (hres hr)).2.1
  handler hr := (h.kept ho hlive hg (hres hr)).2.2

/-- Initializing a class fills in its entry with what belongs there. -/
theorem initializeClass (h : w.Filled) (ho : w.Orderly) (hh : w.Homes)
    (hc : w.classes.Live c) : (w.initializeClass v c).Filled := by
  have hg := (extends_initializeClass w v (Nat.zero_le c.index)).grows
  have hcls := (hg.classes c hc).2
  have hnew : ∀ {g i r}, w.Fills v c g i r → w.registries.Live g := fun hr =>
    Orderly.registry_live hr.own
  refine ⟨fun {g i r} hr => ?_, fun {g i r} hr => ?_, fun {g i r} hr => ?_⟩
  · rcases resolves_initializeClass hr with hr | hr
    · exact (h.kept ho hh.live hg hr).1
    · rw [hr.cls, hg.ownEntry (hnew hr) hc]
      exact hr.own
  · rcases resolves_initializeClass hr with hr | hr
    · exact (h.kept ho hh.live hg hr).2.1
    · rw [hr.cls, hcls.fieldOffset]
      exact hr.offset
  · rcases resolves_initializeClass hr with hr | hr
    · exact (h.kept ho hh.live hg hr).2.2
    · obtain ⟨hreg, hname⟩ := hh.of_findClass hr.handler
      refine ⟨v, hreg.of_grows hg, ?_, ?_⟩
      · rw [hg.coreOf hreg.live_vm]
        exact hr.registry.symm
      · rw [hg.className (hh.live hreg), hname, hg.rows g i (hnew hr)]

end Filled

/-! ### Newcomers -/

/-- A class that is ready to be initialized and published on a machine. -/
structure Newcomer (w : World β) (v : VmRef) (c : ClassRef) : Prop where
  live : w.classes.Live c
  machine : w.vms.Live v
  unbound : w.Unbound c
  unseen : ∀ {u a}, w.Registered u a → c ∉ w.lineage a
  number : (w.classes.get c).number = (w.vms.get v).classes.classes.size
  supers : ∀ {a}, a ∈ w.ancestors c → w.Registered v a

/-- Initialize a class and publish it. -/
def enroll (w : World β) (v : VmRef) (c : ClassRef) : World β :=
  (w.initializeClass v c).publish v c

theorem extends_enroll {n : Nat} (w : World β) (v : VmRef) (hn : n ≤ c.index) :
    Extends n w (w.enroll v c) :=
  (extends_initializeClass w v hn).trans (extends_publish n _ v c)

/-- Enrolling a class is patching it and then work that leaves everything else alone. -/
theorem extends_patched (w : World β) (v : VmRef) (c : ClassRef) :
    Extends 0 (w.patch v (w.coreOf v) c).2 (w.enroll v c) :=
  (extends_modifyClass _ (Nat.zero_le c.index) (fun k => { k with initialized := true })
    fun _ => ⟨rfl, rfl, rfl, rfl, rfl, rfl, rfl, fun _ => rfl⟩).trans (extends_publish 0 _ v c)

theorem sameClasses_enroll (w : World β) (v : VmRef) (c : ClassRef) :
    w.SameClasses (w.enroll v c) :=
  .of_grows (extends_enroll w v (Nat.zero_le c.index)).grows
    (by
      have hpublish : (w.enroll v c).classes.size = (w.initializeClass v c).classes.size := rfl
      rw [hpublish]
      exact (Store.size_modify ..).trans (size_patch ..))

theorem vms_initializeClass (w : World β) (v : VmRef) (c : ClassRef) :
    (w.initializeClass v c).vms = w.vms := by
  have hp := patches_patch w v (w.coreOf v) c
  have hsame : (w.initializeClass v c).vms = (w.patch v (w.coreOf v) c).2.vms := rfl
  rw [hsame]
  generalize (w.patch v (w.coreOf v) c).2 = x at hp
  cases hp with
  | nothing => rfl
  | installs _ _ _ _ => rfl

theorem live_enroll {u : VmRef} : (w.enroll v c).vms.Live u ↔ w.vms.Live u := by
  rw [enroll, publish, modifyVm, Store.live_modify, vms_initializeClass]

/-- What a machine knows after a class was enrolled on it. -/
theorem classes_enroll_self (hv : w.vms.Live v) :
    ((w.enroll v c).vms.get v).classes = (w.vms.get v).classes.register (w.className c)
      (w.classes.get c).number c := by
  have hsame := sameClasses_initializeClass w v c
  have hget : ((w.enroll v c).vms.get v) = { (w.initializeClass v c).vms.get v with
      classes := ((w.initializeClass v c).vms.get v).classes.register
        ((w.initializeClass v c).classes.get c).name
        ((w.initializeClass v c).classes.get c).number c } :=
    Store.get_modify_self (by rw [vms_initializeClass]; exact hv) _
  rw [hget, vms_initializeClass, (hsame.alike c).name, (hsame.alike c).number]
  rfl

theorem classes_enroll_of_ne {u : VmRef} (hu : u ≠ v) :
    ((w.enroll v c).vms.get u).classes = (w.vms.get u).classes := by
  have hget : (w.enroll v c).vms.get u = (w.initializeClass v c).vms.get u :=
    Store.get_modify_of_ne hu _
  rw [hget, vms_initializeClass]

theorem registered_enroll {u : VmRef} {a : ClassRef} (hv : w.vms.Live v) :
    (w.enroll v c).Registered u a ↔ w.Registered u a ∨ (u = v ∧ a = c) := by
  by_cases hu : u = v
  · subst hu
    rw [Registered, classes_enroll_self hv, ClassRegistry.register, Array.mem_push, Registered]
    simp
  · rw [Registered, classes_enroll_of_ne hu, Registered]
    simp [hu]

theorem resolves_enroll {g : RegistryRef} {i : Nat} {r : Resolution} :
    (w.enroll v c).Resolves g i r ↔ (w.initializeClass v c).Resolves g i r := Iff.rfl

theorem coreOf_enroll (u : VmRef) : (w.enroll v c).coreOf u = w.coreOf u := by
  by_cases hu : w.vms.Live u
  · exact (extends_enroll w v (Nat.zero_le c.index)).grows.coreOf hu
  · have hu' : ¬ (w.enroll v c).vms.Live u := mt live_enroll.mp hu
    rw [coreOf, Store.get_of_not_live hu', coreOf, Store.get_of_not_live hu]

theorem initialized_enroll (hc : w.classes.Live c) :
    ((w.enroll v c).classes.get c).initialized = true := by
  have hlive : (w.patch v (w.coreOf v) c).2.classes.Live c := by
    rw [Store.Live, size_patch]
    exact hc
  exact congrArg Class.initialized (Store.get_modify_self hlive _)

namespace Newcomer

variable {u : VmRef} {a : ClassRef}

theorem upward (hn : w.Newcomer v c) (ha : a ∈ w.lineage c) : w.Registered v a ∨ a = c := by
  rcases List.mem_cons.mp ha with rfl | ha
  · exact Or.inr rfl
  · exact Or.inl (hn.supers ha)

theorem named (hn : w.Newcomer v c) (h : w.Homes) {name : String} {n : Nat}
    (hname : ((w.enroll v c).vms.get u).classes.numbers.lookup name = some n) :
    ∃ a, ((w.enroll v c).vms.get u).classes.classes[n]? = some a ∧ w.className a = name := by
  by_cases hu : u = v
  · subst hu
    rw [classes_enroll_self hn.machine] at hname ⊢
    simp only [ClassRegistry.getElem?_register]
    rw [ClassRegistry.lookup_register] at hname
    split at hname
    · rename_i hc
      cases hname
      exact ⟨c, Or.inr ⟨hn.number, rfl⟩, hc.symm⟩
    · obtain ⟨a, ha, haname⟩ := h.named hname
      exact ⟨a, Or.inl ha, haname⟩
  · rw [classes_enroll_of_ne hu] at hname ⊢
    exact h.named hname

theorem numbered (hn : w.Newcomer v c) (h : w.Homes) {n : Nat}
    (ha : ((w.enroll v c).vms.get u).classes.classes[n]? = some a) :
    (w.classes.get a).number = n := by
  by_cases hu : u = v
  · subst hu
    rw [classes_enroll_self hn.machine, ClassRegistry.getElem?_register] at ha
    rcases ha with ha | ⟨rfl, rfl⟩
    · exact h.numbered ha
    · exact hn.number
  · rw [classes_enroll_of_ne hu] at ha
    exact h.numbered ha

/-- Nothing published before derives from the newcomer, and no entry knew it before. -/
theorem registry (hn : w.Newcomer v c) (h : w.Homes) {g : RegistryRef} {i : Nat} {r : Resolution}
    (ha : w.Registered u a ∨ (u = v ∧ a = c)) (hr : (w.enroll v c).Resolves g i r)
    (hra : r.cls ∈ w.lineage a) : g = (w.coreOf u).registry := by
  rcases resolves_initializeClass (resolves_enroll.mp hr) with hold | hnew
  · rcases ha with ha | ⟨rfl, rfl⟩
    · exact h.registry ha hold hra
    · rcases hn.upward hra with hup | hself
      · exact h.registry hup hold (w.mem_lineage_self _)
      · exact absurd hself (hn.unbound _ _ _ hold)
  · rcases ha with ha | ⟨rfl, rfl⟩
    · rw [hnew.cls] at hra
      exact absurd hra (hn.unseen ha)
    · exact hnew.registry

/-- The class below it is a newcomer once this one was enrolled. -/
theorem next (hn : w.Newcomer v c) {b : ClassRef} (hb : w.classes.Live b) (hne : b ≠ c)
    (hunbound : w.Unbound b) (hunseen : ∀ {u a}, w.Registered u a → b ∉ w.lineage a)
    (hnumber : (w.classes.get b).number = (w.vms.get v).classes.classes.size + 1)
    (hsupers : w.ancestors b = w.lineage c) : (w.enroll v c).Newcomer v b := by
  have hsame := sameClasses_enroll w v c
  have hreg := fun {u a} => registered_enroll (c := c) (u := u) (a := a) hn.machine
  exact
    { live := (hsame.live b).mpr hb
      machine := live_enroll.mpr hn.machine
      unbound := unbound_initializeClass hunbound hne
      unseen := fun {u a} ha => by
        rw [hsame.lineage]
        rcases hreg.mp ha with ha | ⟨-, rfl⟩
        · exact hunseen ha
        · intro hmem
          rcases hn.upward hmem with hmem | hself
          · exact hunseen hmem (w.mem_lineage_self b)
          · exact hne hself
      number := by
        rw [(hsame.alike b).number, hnumber, classes_enroll_self hn.machine]
        exact (Array.size_push c).symm
      supers := fun {a} ha => by
        rw [World.ancestors, (hsame.alike b).ancestors] at ha
        rw [hreg]
        exact (hn.upward (hsupers ▸ ha)).imp_right fun ha => ⟨rfl, ha⟩ }

end Newcomer

theorem Homes.enroll (h : w.Homes) (hn : w.Newcomer v c) : (w.enroll v c).Homes := by
  have hg := (extends_enroll w v (Nat.zero_le c.index)).grows
  have hsame := sameClasses_enroll w v c
  have hreg := fun {u a} => registered_enroll (c := c) (u := u) (a := a) hn.machine
  exact
    { live := fun {u a} ha => by
        rcases hreg.mp ha with ha | ⟨-, rfl⟩
        · exact (hg.classes _ (h.live ha)).1
        · exact (hg.classes _ hn.live).1
      ready := fun {u a} ha => by
        rcases hreg.mp ha with ha | ⟨-, rfl⟩
        · exact (hg.classes _ (h.live ha)).2.initialized (h.ready ha)
        · exact initialized_enroll hn.live
      upward := fun {u a b} ha hb => by
        rw [hsame.lineage] at hb
        rw [hreg]
        rcases hreg.mp ha with ha | ⟨rfl, rfl⟩
        · exact Or.inl (h.upward ha hb)
        · exact (hn.upward hb).imp_right fun hb => ⟨rfl, hb⟩
      named := fun hname => by
        obtain ⟨a, ha, haname⟩ := hn.named h hname
        exact ⟨a, ha, (hsame.className a).trans haname⟩
      numbered := fun {u n a} ha => (hsame.alike a).number.trans (hn.numbered h ha)
      registry := fun {u a g i r} ha hr hra => by
        rw [hsame.lineage] at hra
        rw [coreOf_enroll]
        exact hn.registry h (hreg.mp ha) hr hra }

theorem Filled.enroll (h : w.Filled) (ho : w.Orderly) (hh : w.Homes) (hn : w.Newcomer v c) :
    (w.enroll v c).Filled := by
  have hlive : ∀ {u a}, (w.initializeClass v c).Registered u a →
      (w.initializeClass v c).classes.Live a := by
    intro u a ha
    rw [Registered, vms_initializeClass] at ha
    exact ((sameClasses_initializeClass w v c).live a).mpr (hh.live ha)
  exact (h.initializeClass ho hh hn.live).of_grows (ho.initializeClass v hn.live hn.unbound) hlive
    (extends_publish 0 _ v c).grows resolves_enroll.mp

/-! ### Defining a class and setting up a machine -/

/-- A class just linked below one of a machine's classes is a newcomer there. -/
theorem newcomer_link (ho : w.Orderly) (hl : w.Lineages) (hh : w.Homes) (d : ClassDecl β)
    {s : ClassRef} (hs : w.Registered v s) :
    (w.link d (w.vms.get v).classes.next (some s)).2.Newcomer v w.classes.next := by
  have hnew := get_link_next w d (w.vms.get v).classes.next (some s)
  have hg := (extends_link 0 w d (w.vms.get v).classes.next (some s)).grows
  exact
    { live := Store.live_next_add _ _
      machine := hs.live_vm
      unbound := ho.unbound_next
      unseen := by
        intro u a ha hmem
        have ha' : w.Registered u a := ha
        rw [hg.lineage (hh.live ha')] at hmem
        exact w.classes.not_live_next (hl.live_of_mem_lineage (hh.live ha') hmem)
      number := hnew.position
      supers := by
        intro a ha
        rw [World.ancestors, hnew.ancestors] at ha
        exact hh.upward hs ha }

/-- Defining a class is linking it and enrolling it. -/
theorem define_enrolls {d : ClassDecl β} (hd : w.define v d = .ok (c, w')) :
    c = w.classes.next ∧ ∃ s, w.findClass v (d.extends?.getD rootClassName) = some s ∧
      w' = (w.link d (w.vms.get v).classes.next (some s)).2.enroll v w.classes.next := by
  obtain ⟨-, rfl, s, hs, rfl⟩ := define_eq_ok hd
  exact ⟨rfl, s, hs, rfl⟩

section Machine

variable (w) (options : VmOptions) (core : Core)

/-- The world with the root class of a new machine linked. -/
def rootLinked : World β := (w.link { name := rootClassName } 0 none).2

theorem ordered_nothing (cells : Store .cell (Descriptor β)) :
    (⟨cells, [], []⟩ : Layout β).Ordered where
  lt h := by cases h
  named h := absurd h (Nat.not_lt_zero _)
  inj h := by cases h

theorem live_rootLinked (s : ClassRef) (hs : some w.classes.next = some s) :
    w.rootLinked.classes.Live s := by
  cases hs
  exact Store.live_next_add _ _

/-- The root class declares nothing, so what is linked below it starts from nothing. -/
theorem ordered_rootLinked : (w.rootLinked.inherited (some w.classes.next)).Ordered := by
  have hroot := get_link_next w { name := rootClassName } 0 none
  have htable : w.rootLinked.tableOf w.classes.next = [] := by
    show w.rootLinked.tables.get (w.rootLinked.classes.get w.classes.next).table = []
    have hnext : (w.rootLinked.classes.get w.classes.next).table = w.tables.next := hroot.table
    have htables : w.rootLinked.tables = w.tables.add [] := tables_link w _ 0 none
    rw [hnext, htables, Store.get_add_next]
  have hslots : (w.rootLinked.classes.get w.classes.next).slots = [] := hroot.slots
  have heq : w.rootLinked.inherited (some w.classes.next) = ⟨w.rootLinked.cells, [], []⟩ := by
    rw [inherited, htable, hslots]
  rw [heq]
  exact ordered_nothing _

theorem classes_bareMachine : (w.bareMachine options core).classes =
    (w.rootLinked.link { name := proxyClassName
                         fields := [⟨handlerFieldName, handlerFieldType⟩] } 1
      (some w.classes.next)).2.classes := rfl

/-- A machine that was just added knows no class. -/
theorem classes_addVm (vms : Store .vm Vm) {k : Vm} (hk : k.classes = {}) (v : VmRef) :
    ((vms.add k).get v).classes = (vms.get v).classes := by
  by_cases hv : vms.Live v
  · rw [Store.get_add_of_live hv]
  · rw [Store.get_of_not_live hv]
    by_cases hnext : v = vms.next
    · rw [hnext, Store.get_add_next, hk]
      rfl
    · have hv' : ¬ (vms.add k).Live v := fun h =>
        ((Store.live_add_iff _ _ v).mp h).elim hv hnext
      rw [Store.get_of_not_live hv']

theorem vmClasses_bareMachine (v : VmRef) :
    ((w.bareMachine options core).vms.get v).classes = (w.vms.get v).classes :=
  classes_addVm w.vms rfl v

theorem next_rootLinked : w.rootLinked.classes.next = ⟨w.classes.size + 1⟩ := by
  simp [rootLinked, link, Store.next]

/-- The new machine, before it knows its classes. -/
theorem get_bareMachine : (w.bareMachine options core).vms.get w.vms.next =
    { classes := {}, core, root := w.classes.next, proxy := ⟨w.classes.size + 1⟩
      proxyOffset := ((w.bareMachine options core).classes.get
        ⟨w.classes.size + 1⟩).fields.length - 1, options } := by
  rw [← next_rootLinked]
  exact Store.get_add_next _ _

/-- Setting up a machine is enrolling its two classes on it. -/
theorem newVmAround_enrolls : (w.newVmAround options core).2 =
    ((w.bareMachine options core).enroll w.vms.next w.classes.next).enroll w.vms.next
      ⟨w.classes.size + 1⟩ := by
  rw [newVmAround_eq]
  rfl

variable {w}

theorem Lineages.bareMachine (h : w.Lineages) : (w.bareMachine options core).Lineages := by
  have hroot : w.rootLinked.Lineages :=
    h.link _ 0 (fun s hs => by cases hs) (ordered_nothing w.cells)
  have hproxy := hroot.link { name := proxyClassName
                              fields := [⟨handlerFieldName, handlerFieldType⟩] } 1
    w.live_rootLinked w.ordered_rootLinked
  exact hproxy.of_sameClasses ⟨fun _ => Iff.rfl, fun _ => .refl _⟩

theorem Homes.bareMachine (h : w.Homes) : (w.bareMachine options core).Homes :=
  h.of_grows (extends_bareMachine 0 w options core).grows (vmClasses_bareMachine w options core)
    fun hr => hr

theorem ancestors_bareMachine (w : World β) :
    (w.bareMachine options core).ancestors w.classes.next = [] ∧
    (w.bareMachine options core).ancestors ⟨w.classes.size + 1⟩ = [w.classes.next] ∧
    ((w.bareMachine options core).classes.get w.classes.next).number = 0 ∧
    ((w.bareMachine options core).classes.get ⟨w.classes.size + 1⟩).number = 1 := by
  have hne : w.classes.next ≠ w.rootLinked.classes.next := by
    intro he
    rw [next_rootLinked] at he
    exact absurd (congrArg Ref.index he).symm (Nat.succ_ne_self _)
  have hroot := get_link_next w { name := rootClassName } 0 none
  have hkeep := get_link_of_ne w.rootLinked
    { name := proxyClassName, fields := [⟨handlerFieldName, handlerFieldType⟩] } 1
    (some w.classes.next) hne
  have hproxy := get_link_next w.rootLinked
    { name := proxyClassName, fields := [⟨handlerFieldName, handlerFieldType⟩] } 1
    (some w.classes.next)
  rw [next_rootLinked] at hproxy
  have hrootAncestors : w.rootLinked.ancestors w.classes.next = [] := hroot.ancestors
  refine ⟨?_, ?_, ?_, hproxy.position⟩
  · rw [World.ancestors, classes_bareMachine, hkeep]
    exact hrootAncestors
  · rw [World.ancestors, classes_bareMachine, hproxy.ancestors]
    show w.rootLinked.lineage w.classes.next = [w.classes.next]
    rw [lineage_eq, hrootAncestors]
  · rw [classes_bareMachine, hkeep]
    exact hroot.position

/-- A machine that was just set up knows no class yet. -/
theorem noClasses_bareMachine (w : World β) :
    ((w.bareMachine options core).vms.get w.vms.next).classes = {} := by
  rw [vmClasses_bareMachine, Store.get_of_not_live w.vms.not_live_next]
  rfl

theorem machine_bareMachine (w : World β) : (w.bareMachine options core).vms.Live w.vms.next :=
  Store.live_next_add _ _

/-- Nothing that was published derives from the classes of the new machine. -/
theorem unseen_bareMachine (hl : w.Lineages) (hh : w.Homes) {u : VmRef} {a b : ClassRef}
    (ha : (w.bareMachine options core).Registered u a) (hb : w.classes.size ≤ b.index) :
    b ∉ (w.bareMachine options core).lineage a := by
  rw [Registered, vmClasses_bareMachine] at ha
  have hlive : w.classes.Live a := hh.live ha
  intro hmem
  rw [(extends_bareMachine 0 w options core).grows.lineage hlive] at hmem
  exact absurd (hl.live_of_mem_lineage hlive hmem) (Nat.not_lt.mpr hb)

/-- The root class of a new machine is enrolled first. -/
theorem newcomer_root (ho : w.Orderly) (hl : w.Lineages) (hh : w.Homes) :
    (w.bareMachine options core).Newcomer w.vms.next w.classes.next := by
  obtain ⟨hancestors, -, hnumber, -⟩ := ancestors_bareMachine options core w
  exact
    { live := by
        rw [Store.Live, size_bareMachine]
        exact Nat.lt_add_of_pos_right (by decide)
      machine := machine_bareMachine options core w
      unbound := unbound_bareMachine ho options core (Nat.le_refl _)
      unseen := fun ha => unseen_bareMachine options core hl hh ha (Nat.le_refl _)
      number := by
        rw [hnumber, noClasses_bareMachine]
        rfl
      supers := fun {a} ha => by
        rw [hancestors] at ha
        cases ha }

/-- The proxy class follows, below the root class. -/
theorem newcomer_proxy (ho : w.Orderly) (hl : w.Lineages) (hh : w.Homes) :
    ((w.bareMachine options core).enroll w.vms.next w.classes.next).Newcomer w.vms.next
      ⟨w.classes.size + 1⟩ := by
  obtain ⟨hroot, hancestors, -, hnumber⟩ := ancestors_bareMachine options core w
  have hlive : (w.bareMachine options core).classes.Live ⟨w.classes.size + 1⟩ := by
    rw [Store.Live, size_bareMachine]
    exact Nat.lt_succ_self _
  refine (newcomer_root options core ho hl hh).next hlive ?_ ?_ ?_ ?_ ?_
  · exact fun he => absurd (congrArg Ref.index he) (Nat.succ_ne_self _)
  · exact unbound_bareMachine ho options core (Nat.le_succ _)
  · exact fun ha => unseen_bareMachine options core hl hh ha (Nat.le_succ _)
  · rw [hnumber, noClasses_bareMachine]
    rfl
  · rw [hancestors, lineage_eq, hroot]

theorem Orderly.enroll (h : w.Orderly) (hn : w.Newcomer v c) : (w.enroll v c).Orderly :=
  (h.initializeClass v hn.live hn.unbound).publish v c

/-- What a machine's two classes keep while they are enrolled, one after the other, holds of
the machine set up. -/
theorem newVmAround_enroll {P : World β → Prop} (ho : w.Orderly) (hl : w.Lineages)
    (hh : w.Homes) (hbare : P (w.bareMachine options core))
    (henroll : ∀ {x : World β} {c : ClassRef}, x.Orderly → x.Lineages → x.Homes →
      x.Newcomer w.vms.next c → P x → P (x.enroll w.vms.next c)) :
    P (w.newVmAround options core).2 ∧ (w.newVmAround options core).2.Orderly ∧
      (w.newVmAround options core).2.Lineages ∧ (w.newVmAround options core).2.Homes ∧
      ∀ a, (w.newVmAround options core).2.classes.Live a →
        w.classes.Live a ∨ (w.newVmAround options core).2.Registered w.vms.next a := by
  have hroot := newcomer_root options core ho hl hh
  have hproxy := newcomer_proxy options core ho hl hh
  have hsize := size_bareMachine w options core
  have ho₀ := ho.bareMachine options core
  have hl₀ := hl.bareMachine options core
  have hh₀ := hh.bareMachine options core
  rw [newVmAround_enrolls]
  generalize w.bareMachine options core = x at *
  have ho₁ := ho₀.enroll hroot
  have hsame := sameClasses_enroll x w.vms.next w.classes.next
  have hl₁ := hl₀.of_sameClasses hsame
  have hh₁ := hh₀.enroll hroot
  have hfirst := henroll ho₀ hl₀ hh₀ hroot hbare
  refine ⟨henroll ho₁ hl₁ hh₁ hproxy hfirst, ho₁.enroll hproxy,
    hl₁.of_sameClasses (sameClasses_enroll _ _ _), hh₁.enroll hproxy, fun a ha => ?_⟩
  have hlive := (hsame.live a).mp (((sameClasses_enroll _ w.vms.next _).live a).mp ha)
  rw [Store.Live, hsize] at hlive
  have hreg := registered_enroll (c := w.classes.next) (u := w.vms.next) (a := a) hroot.machine
  have hreg₁ := registered_enroll (c := ⟨w.classes.size + 1⟩) (u := w.vms.next) (a := a)
    hproxy.machine
  by_cases hold : a.index < w.classes.size
  · exact Or.inl hold
  · refine Or.inr (hreg₁.mpr ?_)
    by_cases hfirst : a.index = w.classes.size
    · exact Or.inl (hreg.mpr (Or.inr ⟨rfl, Ref.ext_index hfirst⟩))
    · exact Or.inr ⟨rfl, Ref.ext_index (by show a.index = w.classes.size + 1; omega)⟩

end Machine

end World

end Interception
