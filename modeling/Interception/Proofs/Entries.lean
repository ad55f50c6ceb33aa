/-
What entries are filled in for.

An index leads to entries of the right name, and a class is never what two entries were
filled in for: only its own initialization fills in an entry for it, and that runs once,
on a class nothing else has seen yet.  `Orderly` says both of a world, and everything a
run does keeps it.
-/
import Interception.Proofs.Answers

namespace Interception.World

variable {β : Type} {w w' : World β}

/-- Indexes are right, and every class that an entry was filled in for is a class of its
own. -/
structure Orderly (w : World β) : Prop where
  indexed : ∀ g, (w.registries.get g).Indexed
  live : ∀ {g i r}, w.Resolves g i r → w.classes.Live r.cls
  once : ∀ {g i r g' i' r'}, w.Resolves g i r → w.Resolves g' i' r' → r.cls = r'.cls →
    g = g' ∧ i = i'

/-- No entry was filled in for the class. -/
def Unbound (w : World β) (c : ClassRef) : Prop := ∀ g i r, w.Resolves g i r → r.cls ≠ c

/-- Indexes stay right where no registry is new. -/
theorem Grows.indexed (hg : w.Grows w')
    (hlive : ∀ g, w'.registries.Live g → w.registries.Live g)
    (h : ∀ g, (w.registries.get g).Indexed) (g : RegistryRef) : (w'.registries.get g).Indexed := by
  intro name i hi
  by_cases hreg : w'.registries.Live g
  · have hreg' := hlive g hreg
    rw [hg.position? hreg'] at hi
    obtain ⟨hsize, hrow⟩ := h g name i hi
    rw [(hg.registries g hreg').2.2]
    exact ⟨hsize, (congrArg Row.className (hg.rows g i hreg')).trans hrow⟩
  · rw [Store.get_of_not_live hreg] at hi
    cases hi

namespace Orderly

/-- Before anything is made there is nothing out of order. -/
theorem empty : ({} : World β).Orderly where
  indexed g name i hi := by cases hi
  live hr := absurd hr.live (Nat.not_lt_zero _)
  once hr := absurd hr.live (Nat.not_lt_zero _)

theorem unbound_next (h : w.Orderly) : w.Unbound w.classes.next :=
  fun _ _ _ hr => (h.live hr).ne_next

/-- The entry found for a class is there. -/
theorem lt_size (h : w.Orderly) {g : RegistryRef} {c : ClassRef} {i : Nat}
    (hi : w.ownEntry g c = some i) : i < (w.registries.get g).entries.size :=
  (h.indexed g _ i hi).1

theorem row_className (h : w.Orderly) {g : RegistryRef} {c : ClassRef} {i : Nat}
    (hi : w.ownEntry g c = some i) : (w.entry g i).row.className = w.className c :=
  (h.indexed g _ i hi).2

theorem registry_live {g : RegistryRef} {c : ClassRef} {i : Nat}
    (hi : w.ownEntry g c = some i) : w.registries.Live g := by
  by_contra hg
  rw [ownEntry, Store.get_of_not_live hg] at hi
  cases hi

/-- Nothing new filled in, and nothing lost. -/
theorem of_grows (h : w.Orderly) (hg : w.Grows w')
    (hlive : ∀ g, w'.registries.Live g → w.registries.Live g)
    (hres : ∀ {g i r}, w'.Resolves g i r → w.Resolves g i r) : w'.Orderly where
  indexed := hg.indexed hlive h.indexed
  live hr := (hg.classes _ (h.live (hres hr))).1
  once hr hr' := h.once (hres hr) (hres hr')

theorem of_shifts (h : w.Orderly) (hs : w.Shifts w') : w'.Orderly :=
  h.of_grows hs.grows (fun g hg => (hs.registries g).1.mp hg) fun hr => hs.resolves.mp hr

theorem of_onlyObjects (h : w.Orderly) (ho : w.OnlyObjects w') : w'.Orderly := by
  refine h.of_grows (ho.toExtends 0).grows (fun g hg => ?_) fun {g i r} hr => ?_
  · rw [ho.registries] at hg
    exact hg
  · rw [Resolves, ho.entry] at hr
    exact hr

end Orderly

/-! ### Patching fills in one entry -/

theorem entry_installTrampolines (w : World β) (g : RegistryRef) (i : Nat) (c handler : ClassRef)
    (offset : Nat) (g' : RegistryRef) (j : Nat) :
    (w.installTrampolines g i c handler offset).entry g' j =
      (w.modifyEntry g i (·.resolve
        ⟨c, handler, offset, w.tables.next, (w.classes.get c).table⟩)).entry g' j := rfl

/-- An entry filled in by patching a class was so before, or is for this class. -/
theorem resolves_installTrampolines {g : RegistryRef} {i : Nat} {c handler : ClassRef}
    {offset : Nat} {g' : RegistryRef} {j : Nat} {r : Resolution}
    (h : (w.installTrampolines g i c handler offset).Resolves g' j r) :
    w.Resolves g' j r ∨ g' = g ∧ j = i ∧
      r = ⟨c, handler, offset, w.tables.next, (w.classes.get c).table⟩ := by
  have hlive : w.registries.Live g' := (live_modifyEntry w g i _ g').mp h.live
  have hsize : j < (w.registries.get g').entries.size := by
    rw [← size_modifyEntry w g i (·.resolve
      ⟨c, handler, offset, w.tables.next, (w.classes.get c).table⟩) g']
    exact h.lt_size
  by_cases hj : g' = g ∧ j = i
  · obtain ⟨rfl, rfl⟩ := hj
    rw [Resolves, entry_installTrampolines, entry_modifyEntry_self w g' j _ hlive hsize] at h
    have h' : (w.entry g' j).resolution.or
        (some ⟨c, handler, offset, w.tables.next, (w.classes.get c).table⟩) = some r := h
    cases he : (w.entry g' j).resolution with
    | some r' => rw [he] at h'; exact Or.inl (he.trans h')
    | none => rw [he] at h'; cases h'; exact Or.inr ⟨rfl, rfl, rfl⟩
  · rw [Resolves, entry_installTrampolines, entry_modifyEntry_of_ne w g i _ hj] at h
    exact Or.inl h

/-- Patching does nothing, or it installs trampolines under the class's own entry. -/
inductive Patches (w : World β) (v : VmRef) (core : Core) (c : ClassRef) : World β → Prop
  | nothing : Patches w v core c w
  | installs {i : Nat} {handler : ClassRef} {offset : Nat}
      (hi : w.ownEntry core.registry c = some i)
      (hnone : (w.entry core.registry i).resolution = none)
      (hhandler : w.findClass v (w.entry core.registry i).row.handlerClass = some handler)
      (hoffset : (w.classes.get c).fieldOffset handlerFieldName handlerFieldType = some offset) :
      Patches w v core c (w.installTrampolines core.registry i c handler offset)

theorem patches_patch (w : World β) (v : VmRef) (core : Core) (c : ClassRef) :
    Patches w v core c (w.patch v core c).2 := by
  have hanswers := answers_patch w v core c
  generalize w.patch v core c = x at hanswers ⊢
  cases hanswers with
  | patched hi hnone hfind hoffset => exact .installs hi hnone hfind hoffset
  | _ => exact .nothing

namespace Orderly

theorem patch (h : w.Orderly) (v : VmRef) (core : Core) {c : ClassRef}
    (hc : w.classes.Live c) (hu : w.Unbound c) : (w.patch v core c).2.Orderly := by
  have hgrows := (extends_patch w v core (Nat.zero_le c.index)).grows
  have hp := patches_patch w v core c
  generalize (w.patch v core c).2 = w' at hp hgrows ⊢
  cases hp with
  | nothing => exact h
  | @installs i handler offset hi hnone _ _ =>
    exact
      { indexed := hgrows.indexed (fun g hg => (live_modifyEntry w core.registry i _ g).mp hg)
          h.indexed
        live := by
          intro _ _ _ hr
          rcases resolves_installTrampolines hr with hr | ⟨-, -, rfl⟩
          · exact (hgrows.classes _ (h.live hr)).1
          · exact (hgrows.classes c hc).1
        once := by
          intro _ _ _ _ _ _ hr hr' heq
          rcases resolves_installTrampolines hr with old | ⟨rfl, rfl, rfl⟩ <;>
            rcases resolves_installTrampolines hr' with old' | ⟨rfl, rfl, rfl⟩
          · exact h.once old old' heq
          · exact absurd heq (hu _ _ _ old)
          · exact absurd heq.symm (hu _ _ _ old')
          · exact ⟨rfl, rfl⟩ }

end Orderly

/-- What initializing a class settles when it fills in an entry. -/
structure Fills (w : World β) (v : VmRef) (c : ClassRef) (g : RegistryRef) (i : Nat)
    (r : Resolution) : Prop where
  registry : g = (w.coreOf v).registry
  cls : r.cls = c
  own : w.ownEntry g c = some i
  handler : w.findClass v (w.entry g i).row.handlerClass = some r.handlerClass
  offset : (w.classes.get c).fieldOffset handlerFieldName handlerFieldType = some r.handlerOffset
  unpatched : r.unpatched = (w.classes.get c).table
  intercepted : r.intercepted = w.tables.next

/-- An entry filled in after initializing a class was so before, or was filled in now. -/
theorem resolves_initializeClass {v : VmRef} {c : ClassRef} {g : RegistryRef} {i : Nat}
    {r : Resolution} (h : (w.initializeClass v c).Resolves g i r) :
    w.Resolves g i r ∨ w.Fills v c g i r := by
  have hr : (w.patch v (w.coreOf v) c).2.Resolves g i r := h
  have hp := patches_patch w v (w.coreOf v) c
  generalize (w.patch v (w.coreOf v) c).2 = x at hp hr
  cases hp with
  | nothing => exact Or.inl hr
  | installs hi _ hhandler hoffset =>
    rcases resolves_installTrampolines hr with hr | ⟨rfl, rfl, rfl⟩
    · exact Or.inl hr
    · exact Or.inr ⟨rfl, rfl, hi, hhandler, hoffset, rfl, rfl⟩

/-- Only for the class initialized is an entry filled in. -/
theorem unbound_initializeClass {v : VmRef} {c a : ClassRef} (h : w.Unbound a) (hac : a ≠ c) :
    (w.initializeClass v c).Unbound a := by
  intro g i r hr
  rcases resolves_initializeClass hr with hr | hr
  · exact h g i r hr
  · exact fun hca => hac (hca.symm.trans hr.cls)

namespace Orderly

theorem initializeClass (h : w.Orderly) (v : VmRef) {c : ClassRef}
    (hc : w.classes.Live c) (hu : w.Unbound c) : (w.initializeClass v c).Orderly :=
  (h.patch v (w.coreOf v) hc hu).of_grows
    (extends_modifyClass _ (Nat.zero_le c.index) (fun k => { k with initialized := true })
      fun _ => ⟨rfl, rfl, rfl, rfl, rfl, rfl, rfl, fun _ => rfl⟩).grows
        (fun _ hg => hg) fun hr => hr

theorem publish (h : w.Orderly) (v : VmRef) (c : ClassRef) : (w.publish v c).Orderly :=
  h.of_grows (extends_publish 0 w v c).grows (fun _ hg => hg) fun hr => hr

theorem link (h : w.Orderly) (d : ClassDecl β) (number : Nat) (super? : Option ClassRef) :
    (w.link d number super?).2.Orderly :=
  h.of_grows (extends_link 0 w d number super?).grows (fun _ hg => hg) fun hr => hr

theorem define (h : w.Orderly) {v : VmRef} {d : ClassDecl β} {c : ClassRef}
    (hd : w.define v d = .ok (c, w')) : w'.Orderly := by
  obtain ⟨-, rfl, s, -, rfl⟩ := define_eq_ok hd
  exact ((h.link d _ (some s)).initializeClass v (Store.live_next_add _ _) h.unbound_next).publish
    v _

theorem newRegistry (h : w.Orderly) (rows : List Row) : (w.newRegistry rows).2.Orderly where
  indexed g := by
    rw [get_newRegistry]
    split
    · exact (Registry.ofRows_fresh rows).1
    · exact h.indexed g
  live hr := ((extends_newRegistry 0 w rows).grows.classes _ (h.live (resolves_newRegistry hr))).1
  once hr hr' := h.once (resolves_newRegistry hr) (resolves_newRegistry hr')

theorem bareMachine (h : w.Orderly) (options : VmOptions) (core : Core) :
    (w.bareMachine options core).Orderly :=
  ((h.link _ _ _).link _ _ _).of_grows (extends_addVm 0 _ _).grows (fun _ hg => hg) fun hr => hr

end Orderly

theorem size_bareMachine (w : World β) (options : VmOptions) (core : Core) :
    (w.bareMachine options core).classes.size = w.classes.size + 2 := by
  simp [bareMachine, World.link]

theorem resolves_bareMachine {options : VmOptions} {core : Core} {g : RegistryRef} {i : Nat}
    {r : Resolution} : (w.bareMachine options core).Resolves g i r ↔ w.Resolves g i r := Iff.rfl

/-- Neither of a new machine's two classes is known to any entry. -/
theorem unbound_bareMachine (h : w.Orderly) (options : VmOptions) (core : Core) {c : ClassRef}
    (hc : w.classes.size ≤ c.index) : (w.bareMachine options core).Unbound c := by
  rintro g i r hr rfl
  have hlt : r.cls.index < w.classes.size := h.live (resolves_bareMachine.mp hr)
  omega

/-- What the two classes of a new machine keep while they are initialized and published,
one after the other, holds of the machine set up. -/
theorem newVmAround_induct {P : World β → Prop} (h : w.Orderly) (options : VmOptions)
    (core : Core) (hbare : P (w.bareMachine options core))
    (hinit : ∀ {x : World β} {c : ClassRef}, x.Orderly → x.classes.Live c → x.Unbound c →
      w.classes.size ≤ c.index → P x → P (x.initializeClass w.vms.next c))
    (hpublish : ∀ {x : World β} {c : ClassRef}, P x → P (x.publish w.vms.next c)) :
    P (w.newVmAround options core).2 := by
  have hsize := size_bareMachine w options core
  have hroot : (w.bareMachine options core).classes.Live w.classes.next := by
    rw [Store.Live, hsize]
    exact Nat.lt_add_of_pos_right (by decide)
  have hproxy : (w.bareMachine options core).classes.Live ⟨w.classes.size + 1⟩ := by
    rw [Store.Live, hsize]
    exact Nat.lt_succ_self _
  have hne : (⟨w.classes.size + 1⟩ : ClassRef) ≠ w.classes.next := fun he =>
    absurd (congrArg Ref.index he) (Nat.succ_ne_self _)
  have h0 := h.bareMachine options core
  have hr := unbound_bareMachine h options core (c := w.classes.next) (Nat.le_refl _)
  have hp := unbound_bareMachine h options core (c := ⟨w.classes.size + 1⟩) (Nat.le_succ _)
  rw [newVmAround_eq]
  generalize w.bareMachine options core = x at hbare h0 hr hp hroot hproxy ⊢
  have h1 := (h0.initializeClass w.vms.next hroot hr).publish w.vms.next w.classes.next
  have hp1 := unbound_initializeClass (v := w.vms.next) hp hne
  have hproxy1 := ((extends_initializeClass x w.vms.next
    (Nat.zero_le w.classes.next.index)).grows.classes _ hproxy).1
  have hfirst := hpublish (c := w.classes.next) (hinit h0 hroot hr (Nat.le_refl _) hbare)
  exact hpublish (hinit h1 hproxy1 hp1 (Nat.le_succ _) hfirst)

theorem Orderly.newVmAround (h : w.Orderly) (options : VmOptions) (core : Core) :
    (w.newVmAround options core).2.Orderly :=
  newVmAround_induct h options core (h.bareMachine options core)
    (fun hx hc hu _ _ => hx.initializeClass w.vms.next hc hu)
    fun hx => hx.publish w.vms.next _

end Interception.World
