/-
Patching by hand.

Initializing a class patches it before anything else has seen it.  Patched by hand it may long
have instances and classes below it, and the machine that is asked for its class of handlers need
not be its own.  The world stays sound all the same, as long as the two machines and the patcher
use one registry, and each class is known to one machine only: the entry filled in is the class's
own, which was open, so no entry was filled in for the class before.
-/
import Interception.Proofs.Nearest

namespace Interception.World

variable {β : Type} {w w' : World β} {u v : VmRef} {core : Core} {c : ClassRef}
  {g : RegistryRef} {i : Nat}

/-! ### Names and rows -/

/-- Every registry finds all of its rows. -/
def Complete (w : World β) : Prop := ∀ g, (w.registries.get g).Complete

namespace Complete

theorem empty : ({} : World β).Complete := fun _ i hi => absurd hi (Nat.not_lt_zero i)

theorem of_grows (h : w.Complete) (hg : w.Grows w')
    (hlive : ∀ g, w'.registries.Live g → w.registries.Live g) : w'.Complete := by
  intro g i hi
  by_cases hreg : w'.registries.Live g
  · obtain ⟨-, -, hsize⟩ := hg.registries g (hlive g hreg)
    rw [hsize] at hi
    rw [hg.position? (hlive g hreg)]
    exact (congrArg _ (congrArg Row.className (hg.rows g i (hlive g hreg)))).trans (h g i hi)
  · rw [Store.get_of_not_live hreg] at hi
    exact absurd hi (Nat.not_lt_zero i)

theorem newRegistry (h : w.Complete) (rows : List Row) : (w.newRegistry rows).2.Complete := by
  intro g
  rw [get_newRegistry]
  split
  · exact Registry.complete_ofRows rows
  · exact h g

theorem patch (h : w.Complete) (v : VmRef) (core : Core) (c : ClassRef) :
    (w.patch v core c).2.Complete := by
  have hg := (extends_patch w v core (Nat.zero_le c.index)).grows
  have hp := patches_patch w v core c
  generalize (w.patch v core c).2 = x at hp hg ⊢
  cases hp with
  | nothing => exact h
  | installs _ _ _ _ => exact h.of_grows hg fun g hlive => (live_modifyEntry w _ _ _ g).mp hlive

theorem enroll (h : w.Complete) (v : VmRef) (c : ClassRef) : (w.enroll v c).Complete :=
  h.patch v (w.coreOf v) c

/-- A class has no entry of its own if and only if no row has its name. -/
theorem ownEntry_eq_none_iff (h : w.Complete) (ho : w.Orderly) : w.ownEntry g c = none ↔
    ∀ i < (w.registries.get g).entries.size, (w.entry g i).row.className ≠ w.className c := by
  constructor
  · intro hnone i hi hname
    have hfound := h g i hi
    rw [show ((w.registries.get g).entry i).row.className = w.className c from hname] at hfound
    cases hnone.symm.trans hfound
  · intro hno
    cases hi : w.ownEntry g c with
    | none => rfl
    | some i => exact absurd (ho.row_className hi) (hno i (ho.lt_size hi))

end Complete

/-- Classes with an entry in common have a name in common, so on one lineage they are one. -/
theorem Titled.eq_of_ownEntry (h : w.Titled) (ho : w.Orderly) {a : ClassRef}
    (ha : a ∈ w.lineage c) (hown : w.ownEntry g a = some i) (hi : w.ownEntry g c = some i) :
    a = c := by
  rcases List.mem_cons.mp ha with rfl | habove
  · rfl
  · exact absurd ((ho.row_className hown).symm.trans (ho.row_className hi)) (h.apart habove)

/-! ### One machine for each class -/

/-- No class is known to two machines. -/
def OneHome (w : World β) : Prop := ∀ u v c, w.Registered u c → w.Registered v c → u = v

namespace OneHome

theorem empty : ({} : World β).OneHome := fun _ _ _ h => absurd h not_registered_empty

theorem of_classes (h : w.OneHome)
    (hvms : ∀ v, (w'.vms.get v).classes = (w.vms.get v).classes) : w'.OneHome := by
  intro u v c hu hv
  rw [Registered, hvms] at hu hv
  exact h u v c hu hv

theorem enroll (h : w.OneHome) (hn : w.Newcomer v c) : (w.enroll v c).OneHome := by
  intro x y a hx hy
  rcases (registered_enroll hn.machine).mp hx with hxold | ⟨hxv, hxc⟩ <;>
    rcases (registered_enroll hn.machine).mp hy with hyold | ⟨hyv, hyc⟩
  · exact h x y a hxold hyold
  · exact absurd (w.mem_lineage_self c) (hn.unseen (hyc ▸ hxold))
  · exact absurd (w.mem_lineage_self c) (hn.unseen (hxc ▸ hyold))
  · exact hxv.trans hyv.symm

end OneHome

/-! ### Patching by hand -/

/-- A class of a machine of this registry is unbound as long as its entry is open. -/
theorem Sound.unbound (h : w.Sound) (hu : w.Registered u c)
    (hcore : (w.coreOf u).registry = g) (hi : w.ownEntry g c = some i)
    (hnone : (w.entry g i).resolution = none) : w.Unbound c := by
  rintro g' j r hr rfl
  obtain rfl : g' = g :=
    (h.homes.registry hu hr (w.mem_lineage_self _)).trans hcore
  obtain rfl : j = i := Option.some.inj ((h.filled.own hr).symm.trans hi)
  cases hnone.symm.trans hr

/-- Patching by hand a class of a machine that uses this registry, looking its handler class up
on a machine that uses it too. -/
theorem Sound.patch (h : w.Sound) (hone : w.OneHome) (hu : w.Registered u c)
    (hcore : (w.coreOf u).registry = core.registry) (hv : (w.coreOf v).registry = core.registry) :
    (w.patch v core c).2.Sound ∧ w.Tends (w.patch v core c).2 := by
  have hc := h.homes.live hu
  have hsize := size_patch w v core c
  have hg := (extends_patch w v core (Nat.zero_le c.index)).grows
  obtain ⟨htabled, htends⟩ := h.tabled.patch h.lineages h.orderly hc (v := v) core
  refine ⟨?_, htends⟩
  have hp := patches_patch w v core c
  have horderly : w.Unbound c → (w.patch v core c).2.Orderly := h.orderly.patch v core hc
  generalize (w.patch v core c).2 = x at *
  cases hp with
  | nothing => exact h
  | @installs i handler offset hi hnone hhandler hoffset =>
    have hsame := SameClasses.of_grows hg hsize
    have hcls := (hg.classes c hc).2
    obtain ⟨hreg, hname⟩ := h.homes.of_findClass hhandler
    exact
      { orderly := horderly (h.unbound hu hcore hi hnone)
        lineages := h.lineages.of_sameClasses hsame
        homes :=
          { live := fun ha => (hg.classes _ (h.homes.live ha)).1
            ready := fun ha => (hg.classes _ (h.homes.live ha)).2.initialized (h.homes.ready ha)
            upward := fun ha hb => h.homes.upward ha (hsame.lineage _ ▸ hb)
            named := fun hn => by
              obtain ⟨a, ha, hname⟩ := h.homes.named hn
              exact ⟨a, ha, (hsame.className a).trans hname⟩
            numbered := fun ha => (hsame.alike _).number.trans (h.homes.numbered ha)
            registry := fun {y a g j r} ha hr hmem => by
              rw [hsame.lineage] at hmem
              have ha' : w.Registered y a := ha
              rcases resolves_installTrampolines hr with hr | ⟨rfl, -, rfl⟩
              · exact h.homes.registry ha' hr hmem
              · rw [hone u y c hu (h.homes.upward ha' hmem)] at hcore
                exact hcore.symm }
        filled :=
          { own := fun {g j r} hr => by
              rcases resolves_installTrampolines hr with hr | ⟨rfl, rfl, rfl⟩
              · exact (h.filled.kept h.orderly h.homes.live hg hr).1
              · exact (hg.ownEntry (Orderly.registry_live hi) hc).trans hi
            offset := fun {g j r} hr => by
              rcases resolves_installTrampolines hr with hr | ⟨rfl, rfl, rfl⟩
              · exact (h.filled.kept h.orderly h.homes.live hg hr).2.1
              · exact (hcls.fieldOffset _ _).trans hoffset
            handler := fun {g j r} hr => by
              rcases resolves_installTrampolines hr with hr | ⟨rfl, rfl, rfl⟩
              · exact (h.filled.kept h.orderly h.homes.live hg hr).2.2
              · refine ⟨v, hreg, hv, (hsame.className _).trans (hname.trans ?_)⟩
                rw [hg.rows _ _ (Orderly.registry_live hi)] }
        tabled := htabled
        peopled := h.peopled.of_grows hg rfl
        homed := fun a ha => by
          obtain ⟨y, hy⟩ := h.homed a ((hsame.live a).mp ha)
          exact ⟨y, hy⟩ }

end Interception.World

/-! ### The demonstration -/

namespace Interception.Demo

/-- Define the activity while there is no class yet for its handlers, and then that class. -/
def postponing (v : VmRef) : Program Body Tally ClassRef := do
  let _ ← Program.perform (.define v activityDecl)
  Program.perform (.define v handlerDecl)

/-- The state after that: the activity's row is still open. -/
def postponed (mode : SwapMode) : State Body (Logged Body Tally) :=
  ((postponing ⟨0⟩).lift.start host.logged
    ⟨(World.newVm {} { mode, maxDepth := 32 }).2, {}, ({}, [])⟩).2

theorem reached_postponed (mode : SwapMode) :
    Reached host (fun op => op.IsOrdinary = true) (postponed mode) := by
  have hmachine : Reached host (fun op => op.IsOrdinary = true) _ :=
    .newVm ({} : Tally) { mode, maxDepth := 32 }
  exact hmachine.run (postponing ⟨0⟩) (.bind (.perform rfl) fun _ => .perform rfl)

/-- The world with an activity in it, which has no handler. -/
def unstaffed (mode : SwapMode) : World Body := ((postponed mode).world.allocate ⟨0⟩ ⟨2⟩).2

/-- The world after the activity's class was patched by hand. -/
def belated (mode : SwapMode) : World Body :=
  ((unstaffed mode).patch ⟨0⟩ ((unstaffed mode).coreOf ⟨0⟩) ⟨2⟩).2

theorem sound_unstaffed (mode : SwapMode) : (unstaffed mode).Sound := by
  have hsound : (postponed mode).world.Sound :=
    (reached_postponed mode).sound uses_body (postponed mode).at_present
  exact hsound.of_onlyObjects (World.onlyObjects_allocate _ _ _)

theorem sound_belated (mode : SwapMode) : (belated mode).Sound := by
  have hone : (unstaffed mode).vms.size = 1 := by cases mode <;> decide +kernel
  have hregistered : (unstaffed mode).Registered ⟨0⟩ ⟨2⟩ := by cases mode <;> decide +kernel
  have honeHome : (unstaffed mode).OneHome := fun u v c hu hv =>
    World.eq_of_live_vms (Nat.le_of_eq hone) hu.live_vm hv.live_vm
  exact ((sound_unstaffed mode).patch honeHome hregistered rfl rfl).1

end Interception.Demo
