/-
Machines with classes of their own.

A machine is set up in an empty world, and classes are defined on it one after the other, a
refusal being passed over.  Two machines loaded with the same declarations have the same
outlines.  And before anything runs a loaded machine has three properties that no run takes
away: every copy is exactly what patching made it; a machine without rows has no entry that
could be filled in; and the proxy base and its superclasses declare no methods, so that no
trampoline is ever for one of theirs.
-/
import Interception.Proofs.Levels
import Interception.Proofs.Outlines

namespace Interception.World

variable {β : Type} {w w' : World β} {v : VmRef} {c : ClassRef}

/-! ### Definitions in a row -/

/-- The world after a definition, the same if it was refused. -/
def defined (w : World β) (v : VmRef) (d : ClassDecl β) : World β :=
  match w.define v d with
  | .ok (_, w') => w'
  | .error _ => w

/-- Define classes one after the other. -/
def defineAll (w : World β) (v : VmRef) (ds : List (ClassDecl β)) : World β :=
  ds.foldl (·.defined v ·) w

/-- A world with one machine and these classes defined on it. -/
def loaded (options : VmOptions) (ds : List (ClassDecl β)) : World β :=
  (({} : World β).newVm options).2.defineAll ⟨0⟩ ds

theorem defineAll_cons (w : World β) (v : VmRef) (d : ClassDecl β) (rest : List (ClassDecl β)) :
    w.defineAll v (d :: rest) = (w.defined v d).defineAll v rest := rfl

theorem defined_ok {d : ClassDecl β} (h : w.define v d = .ok (c, w')) : w.defined v d = w' := by
  simp only [defined, h]

theorem defined_error {d : ClassDecl β} {e : VmError} (h : w.define v d = .error e) :
    w.defined v d = w := by
  simp only [defined, h]

/-- What a definition keeps, all of them keep. -/
theorem defineAll_induct {P : World β → Prop} (ds : List (ClassDecl β)) (h : P w)
    (hstep : ∀ {w c w'} (d : ClassDecl β), P w → w.define v d = .ok (c, w') → P w') :
    P (w.defineAll v ds) := by
  induction ds generalizing w with
  | nil => exact h
  | cons d rest ih =>
    rw [defineAll_cons]
    refine ih ?_
    cases hd : w.define v d with
    | error e =>
      rw [defined_error hd]
      exact h
    | ok x =>
      rw [defined_ok hd]
      exact hstep d h hd

/-! ### One machine in an empty world -/

/-- The machine of a loaded world before its classes are initialized. -/
def unloaded (options : VmOptions) : World β :=
  (({} : World β).newRegistry options.rows).2.bareMachine options ⟨⟨0⟩, options.mode⟩

theorem newVm_empty (options : VmOptions) : (({} : World β).newVm options).2 =
    ((unloaded options).enroll ⟨0⟩ ⟨0⟩).enroll ⟨0⟩ ⟨1⟩ := by
  have hnew : ({} : World β).newVm options =
      (({} : World β).newRegistry options.rows).2.newVmAround options
        ⟨({} : World β).registries.next, options.mode⟩ := rfl
  have hregistry : ({} : World β).registries.next = ⟨0⟩ := rfl
  have hvm : (({} : World β).newRegistry options.rows).2.vms.next = ⟨0⟩ := rfl
  have hclass : (({} : World β).newRegistry options.rows).2.classes.next = ⟨0⟩ := rfl
  have hsize : (({} : World β).newRegistry options.rows).2.classes.size = 0 := rfl
  rw [hnew, hregistry, newVmAround_eq, hvm, hclass, hsize]
  rfl

theorem grows_loaded (options : VmOptions) (ds : List (ClassDecl β)) :
    (unloaded options).Grows (loaded options ds) := by
  refine defineAll_induct ds ?_ ?_
  · rw [newVm_empty]
    have hroot := extends_enroll (unloaded (β := β) options) ⟨0⟩
      (Nat.zero_le (⟨0⟩ : ClassRef).index)
    exact hroot.grows.trans (extends_enroll _ ⟨0⟩ (Nat.zero_le (⟨1⟩ : ClassRef).index)).grows
  · intro w c w' d h hd
    exact h.trans (extends_define hd).grows

theorem sound_loaded (options : VmOptions) (ds : List (ClassDecl β)) :
    (loaded options ds).Sound := by
  refine defineAll_induct ds ((Sound.empty.newRegistry options.rows).newVmAround options _) ?_
  intro w c w' d h hd
  exact (h.define hd).1

theorem live_unloaded (options : VmOptions) : (unloaded (β := β) options).vms.Live ⟨0⟩ :=
  Store.live_next_add _ _

theorem coreOf_loaded (options : VmOptions) (ds : List (ClassDecl β)) :
    (loaded options ds).coreOf ⟨0⟩ = ⟨⟨0⟩, options.mode⟩ := by
  rw [(grows_loaded options ds).coreOf (live_unloaded options)]
  rfl

theorem maxDepth_loaded (options : VmOptions) (ds : List (ClassDecl β)) :
    (loaded options ds).maxDepth ⟨0⟩ = options.maxDepth := by
  have hsame := ((grows_loaded options ds).vms ⟨0⟩ (live_unloaded options)).2.options
  rw [maxDepth, hsame]
  rfl

/-! ### The same declarations -/

theorem sameOutline_newVm (options options' : VmOptions) :
    SameOutline ⟨0⟩ (({} : World β).newVm options).2 (({} : World β).newVm options').2 := by
  have hbare : SameOutline (β := β) ⟨0⟩ (unloaded options) (unloaded options') :=
    { machine := live_unloaded options
      machine' := live_unloaded options'
      size := rfl
      outline := fun _ => rfl
      known := rfl
      proxy := rfl }
  have hsize : (unloaded (β := β) options).classes.size = 2 := size_bareMachine _ options _
  rw [newVm_empty, newVm_empty]
  refine (hbare.enroll ?_).enroll ?_
  · rw [Store.Live, hsize]
    decide
  · rw [Store.Live, size_enroll, hsize]
    decide

theorem SameOutline.defineAll {w₁ w₂ : World β} (h : SameOutline v w₁ w₂) (hw₁ : w₁.Sound)
    (hw₂ : w₂.Sound) (ds : List (ClassDecl β)) :
    SameOutline v (w₁.defineAll v ds) (w₂.defineAll v ds) := by
  induction ds generalizing w₁ w₂ with
  | nil => exact h
  | cons d rest ih =>
    rw [defineAll_cons, defineAll_cons]
    rcases h.define hw₁ hw₂ d with ⟨e, hd, hd'⟩ | ⟨c, x, x', hd, hd', hx⟩
    · rw [defined_error hd, defined_error hd']
      exact ih h hw₁ hw₂
    · rw [defined_ok hd, defined_ok hd']
      exact ih hx (hw₁.define hd).1 (hw₂.define hd').1

/-- Worlds loaded with the same declarations have the same outlines. -/
theorem sameOutline_loaded (options options' : VmOptions) (ds : List (ClassDecl β)) :
    SameOutline ⟨0⟩ (loaded options ds) (loaded options' ds) :=
  (sameOutline_newVm options options').defineAll (sound_loaded options [])
    (sound_loaded options' [])
    ds

/-! ### Exact copies -/

/-- Every copy is what patching made it. -/
abbrev Exact (w : World β) : Prop := EachCopy (fun row d o original => d = row.copyOf original o) w

theorem exact_loaded (options : VmOptions) (ds : List (ClassDecl β)) :
    (loaded options ds).Exact := by
  have hstart := Sound.empty (β := β)
  have hall : (loaded options ds).Sound ∧ (loaded options ds).Exact := by
    refine defineAll_induct (P := fun w => w.Sound ∧ w.Exact) ds
      ⟨sound_loaded options [], ?_⟩ ?_
    · exact (EachCopy.empty.newRegistry hstart options.rows).newVmAround (fun _ _ _ => rfl)
        (hstart.newRegistry options.rows) options _
    · intro w c w' d h hd
      exact ⟨(h.1.define hd).1, h.2.define (fun _ _ _ => rfl) h.1 hd⟩
  exact hall.2

/-! ### No rows -/

/-- No registry has an entry. -/
structure Rowless (w : World β) : Prop where
  entries : ∀ g, (w.registries.get g).entries.size = 0

theorem Rowless.not_resolves (h : w.Rowless) {g : RegistryRef} {i : Nat} {r : Resolution} :
    ¬ w.Resolves g i r := by
  intro hr
  have hlt := hr.lt_size
  rw [h.entries] at hlt
  exact Nat.not_lt_zero i hlt

theorem Rowless.enroll (h : w.Rowless) (v : VmRef) (c : ClassRef) : (w.enroll v c).Rowless := by
  have hp := patches_patch w v (w.coreOf v) c
  have hsame : (w.enroll v c).registries = (w.patch v (w.coreOf v) c).2.registries := rfl
  refine ⟨fun g => ?_⟩
  rw [hsame]
  generalize (w.patch v (w.coreOf v) c).2 = x at hp
  cases hp with
  | nothing => exact h.entries g
  | installs _ _ _ _ => exact (size_modifyEntry w _ _ _ g).trans (h.entries g)

theorem Rowless.define (h : w.Rowless) {d : ClassDecl β} (hd : w.define v d = .ok (c, w')) :
    w'.Rowless := by
  obtain ⟨-, s, -, rfl⟩ := define_enrolls hd
  have hlink : (w.link d (w.vms.get v).classes.next (some s)).2.Rowless := ⟨h.entries⟩
  exact hlink.enroll v _

theorem rowless_loaded {options : VmOptions} (h : options.rows = []) (ds : List (ClassDecl β)) :
    (loaded options ds).Rowless := by
  refine defineAll_induct ds ?_ fun d hw hd => hw.define hd
  have hbare : (unloaded (β := β) options).Rowless := by
    refine ⟨fun g => ?_⟩
    have hregistries : (unloaded (β := β) options).registries =
        ({} : Store .registry Registry).add (.ofRows options.rows) := rfl
    rw [hregistries, h]
    by_cases hg : g = ({} : Store .registry Registry).next
    · rw [hg, Store.get_add_next]
      rfl
    · have hlive : ¬ (({} : Store .registry Registry).add (.ofRows [])).Live g := by
        rw [Store.live_add_iff]
        rintro (hold | hnew)
        · exact Nat.not_lt_zero _ hold
        · exact hg hnew
      rw [Store.get_of_not_live hlive]
      rfl
  rw [newVm_empty]
  exact (hbare.enroll _ _).enroll _ _

/-! ### The proxy base -/

/-- The machine's proxy base and its superclasses declare no methods. -/
structure Methodless (w : World β) (v : VmRef) : Prop where
  machine : w.vms.Live v
  live : ∀ {a}, a ∈ w.lineage (w.vms.get v).proxy → w.classes.Live a
  declared : ∀ {a}, a ∈ w.lineage (w.vms.get v).proxy → (w.classes.get a).declared = []

theorem Methodless.of_grows (h : w.Methodless v) (hg : w.Grows w') : w'.Methodless v := by
  have hproxy : (w'.vms.get v).proxy = (w.vms.get v).proxy := (hg.vms v h.machine).2.proxy
  have hlineage : w'.lineage (w'.vms.get v).proxy = w.lineage (w.vms.get v).proxy := by
    rw [hproxy, hg.lineage (h.live (w.mem_lineage_self _))]
  refine ⟨(hg.vms v h.machine).1, fun ha => ?_, fun ha => ?_⟩
  · rw [hlineage] at ha
    exact (hg.classes _ (h.live ha)).1
  · rw [hlineage] at ha
    rw [(hg.classes _ (h.live ha)).2.declared]
    exact h.declared ha

theorem methodless_unloaded (options : VmOptions) :
    (unloaded (β := β) options).Methodless ⟨0⟩ where
  machine := live_unloaded options
  live {a} ha := by
    have hlineage : a ∈ [(⟨1⟩ : ClassRef), ⟨0⟩] := ha
    have hsize : (unloaded (β := β) options).classes.size = 2 := size_bareMachine _ options _
    rw [Store.Live, hsize]
    simp only [List.mem_cons, List.not_mem_nil, or_false] at hlineage
    rcases hlineage with rfl | rfl
    · exact Nat.lt_succ_self 1
    · exact Nat.zero_lt_two
  declared {a} ha := by
    have hlineage : a ∈ [(⟨1⟩ : ClassRef), ⟨0⟩] := ha
    simp only [List.mem_cons, List.not_mem_nil, or_false] at hlineage
    rcases hlineage with rfl | rfl
    · rfl
    · rfl

theorem methodless_loaded (options : VmOptions) (ds : List (ClassDecl β)) :
    (loaded options ds).Methodless ⟨0⟩ :=
  (methodless_unloaded options).of_grows (grows_loaded options ds)

end Interception.World
