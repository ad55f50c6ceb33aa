/-
Worlds only grow.

Everything the machines make stays: a table never changes once it was made, a class
keeps everything but its current table, an object keeps its class, and an entry that
was filled in stays filled in with the same resolution.  `Grows` says so of two worlds,
and it holds from any moment of a run to any later one, open windows or not.

The operations that do no more than make new things keep more than that.  Setting up,
defining and allocating change no cell, no counter and no class that was there before.
`Extends n` says this of all classes below a number `n`, so that defining a class, which
makes the class first and then works on it, can be followed step by step.
-/
import Mathlib.Tactic.Common
import Interception.Definition
import Interception.Allocation
import Interception.Windows

namespace Interception

/-! ### Stores -/

namespace Store

variable {k : Kind} {α : Type}

theorem live_add_iff (s : Store k α) (a : α) (r : Ref k) :
    (s.add a).Live r ↔ s.Live r ∨ r = s.next := by
  simp only [Live, size_add, next]
  constructor
  · intro h
    by_cases hr : r.index < s.size
    · exact Or.inl hr
    · exact Or.inr (Ref.ext_index (by show r.index = s.size; omega))
  · rintro (h | rfl)
    · omega
    · exact Nat.lt_succ_self _

/-- A reference that is live is not the next one. -/
theorem mem_refs {s : Store k α} {r : Ref k} : r ∈ s.refs ↔ s.Live r := by
  rw [refs, List.mem_map, Live]
  constructor
  · rintro ⟨n, hn, rfl⟩
    exact List.mem_range.mp hn
  · intro h
    exact ⟨r.index, List.mem_range.mpr h, rfl⟩

theorem Live.ne_next {s : Store k α} {r : Ref k} (h : s.Live r) : r ≠ s.next := by
  rintro rfl
  exact s.not_live_next h

variable [Inhabited α]

/-- Everything in `s` is in `s'` too, with the content it had. -/
def Keeps (s s' : Store k α) : Prop := ∀ r, s.Live r → s'.Live r ∧ s'.get r = s.get r

theorem Keeps.refl (s : Store k α) : s.Keeps s := fun _ h => ⟨h, rfl⟩

theorem Keeps.trans {s s' s'' : Store k α} (h : s.Keeps s') (h' : s'.Keeps s'') :
    s.Keeps s'' := by
  intro r hr
  obtain ⟨h1, h2⟩ := h r hr
  obtain ⟨h3, h4⟩ := h' r h1
  exact ⟨h3, h4.trans h2⟩

theorem keeps_add (s : Store k α) (a : α) : s.Keeps (s.add a) :=
  fun _ h => ⟨h.add a, get_add_of_live h a⟩

theorem live_of_get_ne {s : Store k α} {r : Ref k} (h : s.get r ≠ default) : s.Live r := by
  by_contra hr
  exact h (get_of_not_live hr)

end Store

/-! ### What a class and a machine keep -/

/-- The same class, up to its current table, its scope and its being initialized since. -/
structure Class.Alike {β : Type} (a b : Class β) : Prop where
  number : b.number = a.number
  name : b.name = a.name
  ancestors : b.ancestors = a.ancestors
  fields : b.fields = a.fields
  slots : b.slots = a.slots
  declared : b.declared = a.declared
  directs : b.directs = a.directs
  initialized : a.initialized = true → b.initialized = true

namespace Class.Alike

variable {β : Type} {a b c : Class β}

theorem refl (a : Class β) : a.Alike a := ⟨rfl, rfl, rfl, rfl, rfl, rfl, rfl, fun h => h⟩

theorem trans (h : a.Alike b) (h' : b.Alike c) : a.Alike c :=
  ⟨h'.number.trans h.number, h'.name.trans h.name, h'.ancestors.trans h.ancestors,
    h'.fields.trans h.fields, h'.slots.trans h.slots, h'.declared.trans h.declared,
    h'.directs.trans h.directs, fun hi => h'.initialized (h.initialized hi)⟩

theorem of_eq (h : b = a) : a.Alike b := h ▸ refl a

theorem slotOf (h : a.Alike b) (name : String) : b.slotOf name = a.slotOf name := by
  rw [Class.slotOf, h.slots, Class.slotOf]

theorem fieldOffset (h : a.Alike b) (name type : String) :
    b.fieldOffset name type = a.fieldOffset name type := by
  rw [Class.fieldOffset, h.fields, Class.fieldOffset]

end Class.Alike

/-- The same machine, with no class forgotten. -/
structure Vm.Alike (a b : Vm) : Prop where
  core : b.core = a.core
  root : b.root = a.root
  proxy : b.proxy = a.proxy
  proxyOffset : b.proxyOffset = a.proxyOffset
  options : b.options = a.options
  classes : ∀ c ∈ a.classes.classes, c ∈ b.classes.classes

namespace Vm.Alike

variable {a b c : Vm}

theorem refl (a : Vm) : a.Alike a := ⟨rfl, rfl, rfl, rfl, rfl, fun _ h => h⟩

theorem trans (h : a.Alike b) (h' : b.Alike c) : a.Alike c :=
  ⟨h'.core.trans h.core, h'.root.trans h.root, h'.proxy.trans h.proxy,
    h'.proxyOffset.trans h.proxyOffset, h'.options.trans h.options,
    fun x hx => h'.classes x (h.classes x hx)⟩

end Vm.Alike

namespace World

variable {β : Type}

/-- The entry in a position was filled in with this resolution. -/
def Resolves (w : World β) (g : RegistryRef) (i : Nat) (r : Resolution) : Prop :=
  (w.entry g i).resolution = some r

instance (w : World β) (g : RegistryRef) (i : Nat) (r : Resolution) :
    Decidable (w.Resolves g i r) :=
  inferInstanceAs (Decidable ((w.entry g i).resolution = some r))

theorem Resolves.unique {w : World β} {g : RegistryRef} {i : Nat} {r r' : Resolution}
    (h : w.Resolves g i r) (h' : w.Resolves g i r') : r = r' :=
  Option.some.inj (h.symm.trans h')

theorem entry_of_not_live {w : World β} {g : RegistryRef} (h : ¬ w.registries.Live g) (i : Nat) :
    w.entry g i = default := by
  rw [entry, Store.get_of_not_live h]
  rfl

theorem Resolves.live {w : World β} {g : RegistryRef} {i : Nat} {r : Resolution}
    (h : w.Resolves g i r) : w.registries.Live g := by
  by_contra hg
  rw [Resolves, entry_of_not_live hg] at h
  cases h

theorem entry_of_size_le {w : World β} {g : RegistryRef} {i : Nat}
    (hi : (w.registries.get g).entries.size ≤ i) : w.entry g i = default := by
  simp [entry, Registry.entry, Array.getD_eq_getD_getElem?, Array.getElem?_eq_none hi]

theorem Resolves.lt_size {w : World β} {g : RegistryRef} {i : Nat} {r : Resolution}
    (h : w.Resolves g i r) : i < (w.registries.get g).entries.size := by
  by_contra hi
  rw [Resolves, entry_of_size_le (Nat.le_of_not_lt hi)] at h
  cases h

/-- Where there is one machine, two are the same. -/
theorem eq_of_live_vms {w : World β} {u v : VmRef} (hone : w.vms.size ≤ 1) (hu : w.vms.Live u)
    (hv : w.vms.Live v) : u = v := by
  have hu' : u.index < w.vms.size := hu
  have hv' : v.index < w.vms.size := hv
  exact Ref.ext_index (by omega)

/-- Where there is one machine, it is the first. -/
theorem eq_of_live_vm {w : World β} {v : VmRef} (hone : w.vms.size = 1) (hv : w.vms.Live v) :
    v = ⟨0⟩ :=
  eq_of_live_vms (Nat.le_of_eq hone) hv (by show 0 < w.vms.size; omega)

/-- Nothing is lost from one world to the other. -/
structure Grows (w w' : World β) : Prop where
  cells : ∀ m, w.cells.Live m → w'.cells.Live m
  tables : w.tables.Keeps w'.tables
  classes : ∀ c, w.classes.Live c →
    w'.classes.Live c ∧ (w.classes.get c).Alike (w'.classes.get c)
  objects : ∀ o, w.objects.Live o → w'.objects.Live o ∧ w'.classOf o = w.classOf o ∧
    (w'.objects.get o).fields.length = (w.objects.get o).fields.length
  registries : ∀ g, w.registries.Live g → w'.registries.Live g ∧
    (w'.registries.get g).index = (w.registries.get g).index ∧
    (w'.registries.get g).entries.size = (w.registries.get g).entries.size
  rows : ∀ g i, w.registries.Live g → (w'.entry g i).row = (w.entry g i).row
  resolved : ∀ {g i r}, w.Resolves g i r → w'.Resolves g i r
  vms : ∀ v, w.vms.Live v → w'.vms.Live v ∧ (w.vms.get v).Alike (w'.vms.get v)

/-- Nothing is lost, and nothing but classes from number `n` on has changed. -/
structure Extends (n : Nat) (w w' : World β) : Prop where
  grows : w.Grows w'
  cells : w.cells.Keeps w'.cells
  classes : ∀ c, w.classes.Live c → c.index < n → w'.classes.get c = w.classes.get c
  counters : ∀ g i, w.registries.Live g →
    (w'.entry g i).openWindows = (w.entry g i).openWindows ∧
    (w'.entry g i).calls = (w.entry g i).calls
  newly : ∀ {g i r}, w'.Resolves g i r → w.Resolves g i r ∨ n ≤ r.cls.index

namespace Grows

variable {w w' w'' : World β}

theorem refl (w : World β) : w.Grows w where
  cells _ h := h
  tables := .refl _
  classes _ h := ⟨h, .refl _⟩
  objects _ h := ⟨h, rfl, rfl⟩
  registries _ h := ⟨h, rfl, rfl⟩
  rows _ _ _ := rfl
  resolved h := h
  vms _ h := ⟨h, .refl _⟩

theorem trans (h : w.Grows w') (h' : w'.Grows w'') : w.Grows w'' where
  cells m hm := h'.cells m (h.cells m hm)
  tables := h.tables.trans h'.tables
  classes c hc := by
    obtain ⟨h1, h2⟩ := h.classes c hc
    obtain ⟨h3, h4⟩ := h'.classes c h1
    exact ⟨h3, h2.trans h4⟩
  objects o ho := by
    obtain ⟨h1, h2, h3⟩ := h.objects o ho
    obtain ⟨h4, h5, h6⟩ := h'.objects o h1
    exact ⟨h4, h5.trans h2, h6.trans h3⟩
  registries g hg := by
    obtain ⟨h1, h2, h3⟩ := h.registries g hg
    obtain ⟨h4, h5, h6⟩ := h'.registries g h1
    exact ⟨h4, h5.trans h2, h6.trans h3⟩
  rows g i hg := (h'.rows g i (h.registries g hg).1).trans (h.rows g i hg)
  resolved hr := h'.resolved (h.resolved hr)
  vms v hv := by
    obtain ⟨h1, h2⟩ := h.vms v hv
    obtain ⟨h3, h4⟩ := h'.vms v h1
    exact ⟨h3, h2.trans h4⟩

theorem className (h : w.Grows w') {c : ClassRef} (hc : w.classes.Live c) :
    w'.className c = w.className c := (h.classes c hc).2.name

theorem lineage (h : w.Grows w') {c : ClassRef} (hc : w.classes.Live c) :
    w'.lineage c = w.lineage c :=
  congrArg (c :: ·) (h.classes c hc).2.ancestors

theorem coreOf (h : w.Grows w') {v : VmRef} (hv : w.vms.Live v) : w'.coreOf v = w.coreOf v :=
  (h.vms v hv).2.core

theorem position? (h : w.Grows w') {g : RegistryRef} (hg : w.registries.Live g) (name : String) :
    (w'.registries.get g).position? name = (w.registries.get g).position? name :=
  congrArg (List.lookup name) (h.registries g hg).2.1

theorem ownEntry (h : w.Grows w') {g : RegistryRef} {c : ClassRef} (hg : w.registries.Live g)
    (hc : w.classes.Live c) : w'.ownEntry g c = w.ownEntry g c := by
  rw [World.ownEntry, World.ownEntry, h.className hc, h.position? hg]

end Grows

namespace Extends

variable {n : Nat} {w w' w'' : World β}

theorem refl (n : Nat) (w : World β) : Extends n w w where
  grows := .refl w
  cells := .refl _
  classes _ _ _ := rfl
  counters _ _ _ := ⟨rfl, rfl⟩
  newly h := Or.inl h

theorem trans (h : Extends n w w') (h' : Extends n w' w'') : Extends n w w'' where
  grows := h.grows.trans h'.grows
  cells := h.cells.trans h'.cells
  classes c hc hn := (h'.classes c (h.grows.classes c hc).1 hn).trans (h.classes c hc hn)
  counters g i hg := by
    obtain ⟨h1, h2⟩ := h.counters g i hg
    obtain ⟨h3, h4⟩ := h'.counters g i (h.grows.registries g hg).1
    exact ⟨h3.trans h1, h4.trans h2⟩
  newly hr := by
    rcases h'.newly hr with hr | hn
    · exact h.newly hr
    · exact Or.inr hn

theorem content (h : Extends n w w') {m : CellRef} (hm : w.cells.Live m) :
    w'.content m = w.content m := (h.cells m hm).2

end Extends

/-! ### Changing one entry -/

section Entries

variable (w : World β) (g : RegistryRef) (i : Nat) (f : Entry → Entry)

theorem live_modifyEntry (g' : RegistryRef) :
    (w.modifyEntry g i f).registries.Live g' ↔ w.registries.Live g' :=
  Store.live_modify ..

theorem index_modifyEntry (g' : RegistryRef) :
    ((w.modifyEntry g i f).registries.get g').index = (w.registries.get g').index :=
  Store.part_get_modify Registry.index (f := (·.modifyEntry i f)) (fun _ => rfl) w.registries g g'

theorem size_modifyEntry (g' : RegistryRef) :
    ((w.modifyEntry g i f).registries.get g').entries.size =
      (w.registries.get g').entries.size :=
  Store.part_get_modify (fun r : Registry => r.entries.size)
    (fun r => r.size_entries_modifyEntry i f) w.registries g g'

/-- The entry changed, where there is one. -/
theorem entry_modifyEntry_self (hg : w.registries.Live g)
    (hi : i < (w.registries.get g).entries.size) :
    (w.modifyEntry g i f).entry g i = f (w.entry g i) := by
  rw [entry, modifyEntry, Store.get_modify_self hg, Registry.entry_modifyEntry_self hi, entry]

/-- Other entries do not change. -/
theorem entry_modifyEntry_of_ne {g' : RegistryRef} {j : Nat} (h : ¬ (g' = g ∧ j = i)) :
    (w.modifyEntry g i f).entry g' j = w.entry g' j := by
  by_cases hg : g' = g
  · subst hg
    have hj : j ≠ i := fun hj => h ⟨rfl, hj⟩
    by_cases hlive : w.registries.Live g'
    · rw [entry, modifyEntry, Store.get_modify_self hlive, Registry.entry_modifyEntry_of_ne hj,
        entry]
    · rw [entry_of_not_live hlive, entry_of_not_live (by rw [live_modifyEntry]; exact hlive)]
  · rw [entry, modifyEntry, Store.get_modify_of_ne hg, entry]

/-- A part of entries that the change leaves alone is the same everywhere. -/
theorem part_entry_modifyEntry {γ : Type} (part : Entry → γ) (hf : ∀ e, part (f e) = part e)
    (g' : RegistryRef) (j : Nat) :
    part ((w.modifyEntry g i f).entry g' j) = part (w.entry g' j) := by
  by_cases h : g' = g ∧ j = i
  · obtain ⟨rfl, rfl⟩ := h
    by_cases hlive : w.registries.Live g' ∧ j < (w.registries.get g').entries.size
    · rw [entry_modifyEntry_self w g' j f hlive.1 hlive.2, hf]
    · congr 1
      by_cases hg : w.registries.Live g'
      · have hj : (w.registries.get g').entries.size ≤ j :=
          Nat.le_of_not_lt fun hj => hlive ⟨hg, hj⟩
        have hj' : ((w.modifyEntry g' j f).registries.get g').entries.size ≤ j := by
          rw [size_modifyEntry]; exact hj
        rw [entry, entry, Registry.entry, Registry.entry, Array.getD_eq_getD_getElem?,
          Array.getD_eq_getD_getElem?, Array.getElem?_eq_none hj, Array.getElem?_eq_none hj']
      · rw [entry_of_not_live hg, entry_of_not_live (by rw [live_modifyEntry]; exact hg)]
  · rw [entry_modifyEntry_of_ne w g i f h]

end Entries

end World

end Interception
