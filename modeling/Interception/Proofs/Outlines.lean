/-
Machines that were set up alike.

Two machines that are given the same declarations in the same order have the same classes
under the same numbers and names, whatever their tables of rows and however many cells each
made on the way.  What is settled about a class by declarations alone is its outline: its
place, its superclasses, its fields and the slots of its methods, but not its cells and
tables.  Patching a class changes no outline, and the slots of a class that is linked depend
on the slots of its superclass and on how many there are.

Three more things are settled by how a machine is set up and never change: copies are exact
as long as nothing runs, a machine without rows patches nothing, and the proxy base and its
superclasses declare no methods.
-/
import Interception.Proofs.Slots

namespace Interception

variable {β : Type}

/-! ### Outlines -/

/-- What declarations alone settle about a class. -/
def Class.outline (k : Class β) : Class β :=
  { k with table := default, directs := [], scope := default }

namespace World

variable {w w' w₁ w₂ : World β} {v : VmRef} {c : ClassRef}

theorem LinkedAs.outline {d : ClassDecl β} {n : Nat} {s : Option ClassRef} {a b : Class β}
    (ha : LinkedAs w₁ d n s a) (hb : LinkedAs w₂ d n s b) (hancestors : a.ancestors = b.ancestors)
    (hfields : a.fields = b.fields) (hslots : a.slots = b.slots) : a.outline = b.outline := by
  have hnumber := ha.position.trans hb.position.symm
  have hname := ha.name.trans hb.name.symm
  have hdeclared := ha.declared.trans hb.declared.symm
  have hinit := ha.initialized.trans hb.initialized.symm
  simp only [Class.outline, hnumber, hname, hancestors, hfields, hslots, hdeclared, hinit]

/-- Patching changes no outline. -/
theorem outline_patch (w : World β) (v : VmRef) (core : Core) (c a : ClassRef) :
    ((w.patch v core c).2.classes.get a).outline = (w.classes.get a).outline := by
  have hp := patches_patch w v core c
  generalize (w.patch v core c).2 = x at hp
  cases hp with
  | nothing => rfl
  | @installs i handler offset _ _ _ _ =>
    have hkept : ∀ k : Class β, Class.outline { k with
        table := w.tables.next
        scope := (k.scope.afterCells (w.tableOf c).length).afterTable w.tables.next } =
        k.outline := fun _ => rfl
    exact Store.part_get_modify Class.outline hkept w.classes c a

theorem size_enroll (w : World β) (v : VmRef) (c : ClassRef) :
    (w.enroll v c).classes.size = w.classes.size := by
  have hpublish : (w.enroll v c).classes.size = (w.initializeClass v c).classes.size := rfl
  rw [hpublish]
  exact (Store.size_modify ..).trans (size_patch ..)

/-- Enrolling a class initializes it and changes no outline otherwise. -/
theorem outline_enroll (hc : w.classes.Live c) (a : ClassRef) :
    ((w.enroll v c).classes.get a).outline =
      if a = c then { (w.classes.get a).outline with initialized := true }
      else (w.classes.get a).outline := by
  have hpatch := outline_patch w v (w.coreOf v) c a
  have hlive : (w.patch v (w.coreOf v) c).2.classes.Live c := by
    rw [Store.Live, size_patch]
    exact hc
  have hget : (w.enroll v c).classes.get a =
      ((w.patch v (w.coreOf v) c).2.classes.modify c fun k =>
        { k with initialized := true }).get a := rfl
  rw [hget]
  generalize (w.patch v (w.coreOf v) c).2 = x at hpatch hlive
  by_cases hac : a = c
  · subst hac
    rw [Store.get_modify_self hlive, if_pos rfl, ← hpatch]
    rfl
  · rw [Store.get_modify_of_ne hac, if_neg hac]
    exact hpatch

/-- The machine has the same classes in both worlds, whatever cells and tables they have. -/
structure SameOutline (v : VmRef) (w₁ w₂ : World β) : Prop where
  machine : w₁.vms.Live v
  machine' : w₂.vms.Live v
  size : w₁.classes.size = w₂.classes.size
  outline : ∀ c, (w₁.classes.get c).outline = (w₂.classes.get c).outline
  known : (w₁.vms.get v).classes = (w₂.vms.get v).classes
  proxy : (w₁.vms.get v).proxy = (w₂.vms.get v).proxy

namespace SameOutline

theorem symm (h : SameOutline v w₁ w₂) : SameOutline v w₂ w₁ :=
  ⟨h.machine', h.machine, h.size.symm, fun c => (h.outline c).symm, h.known.symm, h.proxy.symm⟩

/-- A part of a class that is settled by declarations is the same in both worlds. -/
theorem part {γ : Type} (h : SameOutline v w₁ w₂) (p : Class β → γ)
    (hp : ∀ k : Class β, p k.outline = p k) (c : ClassRef) :
    p (w₁.classes.get c) = p (w₂.classes.get c) := by
  rw [← hp, h.outline c, hp]

theorem className (h : SameOutline v w₁ w₂) (c : ClassRef) : w₁.className c = w₂.className c :=
  h.part Class.name (fun _ => rfl) c

theorem number (h : SameOutline v w₁ w₂) (c : ClassRef) :
    (w₁.classes.get c).number = (w₂.classes.get c).number :=
  h.part Class.number (fun _ => rfl) c

theorem lineage (h : SameOutline v w₁ w₂) (c : ClassRef) : w₁.lineage c = w₂.lineage c :=
  h.part (fun k => c :: k.ancestors) (fun _ => rfl) c

theorem fields (h : SameOutline v w₁ w₂) (c : ClassRef) :
    (w₁.classes.get c).fields = (w₂.classes.get c).fields :=
  h.part Class.fields (fun _ => rfl) c

theorem slots (h : SameOutline v w₁ w₂) (c : ClassRef) :
    (w₁.classes.get c).slots = (w₂.classes.get c).slots :=
  h.part Class.slots (fun _ => rfl) c

theorem declared (h : SameOutline v w₁ w₂) (c : ClassRef) :
    (w₁.classes.get c).declared = (w₂.classes.get c).declared :=
  h.part Class.declared (fun _ => rfl) c

theorem slotOf (h : SameOutline v w₁ w₂) (c : ClassRef) (name : String) :
    w₁.slotOf c name = w₂.slotOf c name :=
  congrArg (List.lookup name) (h.slots c)

theorem live_iff (h : SameOutline v w₁ w₂) (c : ClassRef) :
    w₁.classes.Live c ↔ w₂.classes.Live c := by
  rw [Store.Live, h.size, Store.Live]

theorem next (h : SameOutline v w₁ w₂) : w₁.classes.next = w₂.classes.next :=
  congrArg Ref.mk h.size

theorem registered (h : SameOutline v w₁ w₂) : w₁.Registered v c ↔ w₂.Registered v c := by
  rw [Registered, h.known, Registered]

theorem findClass (h : SameOutline v w₁ w₂) (name : String) :
    w₁.findClass v name = w₂.findClass v name :=
  congrArg (fun k : ClassRegistry => k.byName? name) h.known

theorem declaration? (h : SameOutline v w₁ w₂) (c : ClassRef) (name : String) :
    w₁.declaration? c name = w₂.declaration? c name := by
  rw [World.declaration?, World.declaration?, h.lineage]
  refine findSome?_congr fun a _ => ?_
  rw [h.declared]

/-- The same methods are declared and inherited. -/
theorem declared? (h : SameOutline v w₁ w₂) (c : ClassRef) (name : String) (k : Nat) :
    w₁.declared? c name k = w₂.declared? c name k := by
  rw [World.declared?, World.declared?, h.declaration?]
  refine congrArg (Option.map · _) ?_
  funext x
  rw [h.number, h.className]

/-! ### Setting up alike -/

theorem enroll (h : SameOutline v w₁ w₂) (hc : w₁.classes.Live c) :
    SameOutline v (w₁.enroll v c) (w₂.enroll v c) := by
  have hc' := (h.live_iff c).mp hc
  have hg := (extends_enroll w₁ v (Nat.zero_le c.index)).grows.vms v h.machine
  have hg' := (extends_enroll w₂ v (Nat.zero_le c.index)).grows.vms v h.machine'
  exact
    { machine := hg.1
      machine' := hg'.1
      size := by rw [size_enroll, size_enroll, h.size]
      outline := by
        intro a
        rw [outline_enroll hc, outline_enroll hc', h.outline]
      known := by
        rw [classes_enroll_self h.machine, classes_enroll_self h.machine', h.known, h.className,
          h.number]
      proxy := by rw [hg.2.proxy, hg'.2.proxy, h.proxy] }

/-- How many slots a class has can be read off its names. -/
theorem length_le (h : SameOutline v w₁ w₂) (hw₁ : w₁.Sound) (hw₂ : w₂.Sound)
    (hc : w₁.classes.Live c) : (w₁.tableOf c).length ≤ (w₂.tableOf c).length := by
  by_contra hlt
  obtain ⟨name, hname⟩ := (hw₁.tabled.current c hc).named (Nat.lt_of_not_le hlt)
  rw [h.slotOf] at hname
  exact Nat.lt_irrefl _ ((hw₂.tabled.current c ((h.live_iff c).mp hc)).lt hname)

theorem length_tableOf (h : SameOutline v w₁ w₂) (hw₁ : w₁.Sound) (hw₂ : w₂.Sound)
    (hc : w₁.classes.Live c) : (w₁.tableOf c).length = (w₂.tableOf c).length :=
  Nat.le_antisymm (h.length_le hw₁ hw₂ hc) (h.symm.length_le hw₂ hw₁ ((h.live_iff c).mp hc))

end SameOutline

/-- The slots that declarations get depend on those before and on how many there are. -/
theorem slots_declareAll (number : Nat) (owner : String) (ds : List (MethodDecl (Option β)))
    {l l' : Layout β} (hslots : l.slots = l'.slots) (hlength : l.table.length = l'.table.length) :
    (ds.foldl (Layout.declare number owner) l).slots =
      (ds.foldl (Layout.declare number owner) l').slots := by
  induction ds generalizing l l' with
  | nil => exact hslots
  | cons m rest ih =>
    refine ih ?_ ?_
    · simp only [Layout.declare, hslots, hlength]
    · simp only [Layout.declare, hslots, hlength]
      split
      · rw [List.length_set, List.length_set, hlength]
      · rw [List.length_append, List.length_append, hlength]
        rfl

theorem SameOutline.link (h : SameOutline v w₁ w₂) (d : ClassDecl β) (n : Nat) {s : ClassRef}
    (htable : (w₁.tableOf s).length = (w₂.tableOf s).length) :
    SameOutline v (w₁.link d n (some s)).2 (w₂.link d n (some s)).2 where
  machine := h.machine
  machine' := h.machine'
  size := by simp only [World.link, Store.size_add, h.size]
  outline c := by
    by_cases hc : c = w₁.classes.next
    · have hnew := get_link_next w₁ d n (some s)
      have hnew' := get_link_next w₂ d n (some s)
      rw [← h.next] at hnew'
      rw [hc]
      refine hnew.outline hnew' ?_ ?_ ?_
      · rw [hnew.ancestors, hnew'.ancestors, Option.map_some, Option.map_some, h.lineage]
      · rw [hnew.fields, hnew'.fields, Option.map_some, Option.map_some, h.fields]
      · rw [hnew.slots, hnew'.slots]
        exact slots_declareAll n d.name d.virtuals (h.slots s) htable
    · rw [get_link_of_ne w₁ d n (some s) hc, get_link_of_ne w₂ d n (some s) (h.next ▸ hc)]
      exact h.outline c
  known := h.known
  proxy := h.proxy

/-- The same declaration is refused in both worlds or makes the same class. -/
theorem SameOutline.define (h : SameOutline v w₁ w₂) (hw₁ : w₁.Sound) (hw₂ : w₂.Sound)
    (d : ClassDecl β) :
    (∃ e, w₁.define v d = .error e ∧ w₂.define v d = .error e) ∨
    ∃ c w₁' w₂', w₁.define v d = .ok (c, w₁') ∧ w₂.define v d = .ok (c, w₂') ∧
      SameOutline v w₁' w₂' := by
  by_cases hname : (w₁.vms.get v).classes.contains d.name = true
  · have hname' : (w₂.vms.get v).classes.contains d.name = true := by
      rw [← h.known]
      exact hname
    refine Or.inl ⟨.duplicateClass d.name, ?_, ?_⟩
    · simp only [World.define, if_pos hname]
    · simp only [World.define, if_pos hname']
  · have hname' : ¬ (w₂.vms.get v).classes.contains d.name = true := by
      rw [← h.known]
      exact hname
    cases hs : (w₁.vms.get v).classes.byName? (d.extends?.getD rootClassName) with
    | none =>
      have hs' : (w₂.vms.get v).classes.byName? (d.extends?.getD rootClassName) = none := by
        rw [← h.known]
        exact hs
      refine Or.inl ⟨.classNotFound (d.extends?.getD rootClassName), ?_, ?_⟩
      · simp only [World.define, if_neg hname, hs]
      · simp only [World.define, if_neg hname', hs']
    | some s =>
      have hs' : (w₂.vms.get v).classes.byName? (d.extends?.getD rootClassName) = some s := by
        rw [← h.known]
        exact hs
      have hlive := hw₁.homes.live (hw₁.homes.of_findClass hs).1
      refine Or.inr ⟨w₁.classes.next,
        (w₁.link d (w₁.vms.get v).classes.next (some s)).2.enroll v w₁.classes.next,
        (w₂.link d (w₂.vms.get v).classes.next (some s)).2.enroll v w₂.classes.next,
        ?_, ?_, ?_⟩
      · simp only [World.define, if_neg hname, hs]
        rfl
      · simp only [World.define, if_neg hname', hs', h.next]
        rfl
      · rw [h.known, ← h.next]
        exact (h.link d _ (h.length_tableOf hw₁ hw₂ hlive)).enroll (Store.live_next_add _ _)

end World

end Interception
