/-
Interception cannot be seen.

Two plays are alike if as many objects were allocated in both and the worlds are twins for
the pairing by order of allocation.  An allocation adds one pair: the machine with rows makes
a handler as well, but nothing in either world refers to what is new.  A call is mirrored.  So
plays stay alike, and what they end in and leave behind corresponds, if no call overflows on
the machine without rows.
-/
import Interception.Proofs.Mirroring

namespace Interception

namespace World

variable {β : Type} {b b₁ b₂ w w' w₁ w₂ : World β} {v : VmRef} {x : β} {c : ClassRef} {i : Nat}
  {r : Resolution} {R R' : ObjectRef → ObjectRef → Prop} {o₁ o₂ : ObjectRef}

/-! ### Allocating side by side -/

/-- Handlers have no handlers. -/
theorem Discreet.handler_alone (hd : b.Discreet v x)
    (hr : b.interceptionOf (b.coreOf v).registry c = some (i, r)) :
    b.interceptionOf (b.coreOf v).registry r.handlerClass = none := by
  obtain ⟨-, hres, -⟩ := interceptionOf_eq_some.mp hr
  have hnone : b.nearestEntry (b.coreOf v).registry r.handlerClass = none := by
    rw [nearestEntry, List.findSome?_eq_none_iff]
    intro a ha
    exact hd.free hres ha
  rw [interceptionOf, hnone]
  rfl

theorem Rowless.interceptionOf (h : w.Rowless) (g : RegistryRef) (c : ClassRef) :
    w.interceptionOf g c = none := by
  cases hr : w.interceptionOf g c with
  | none => rfl
  | some y => exact absurd (interceptionOf_eq_some.mp hr).2.1 h.not_resolves

/-- What was there before an allocation is what it was. -/
theorem Made.field?_of_live {o p : ObjectRef} (h : w.Made v c o w') (hp : w.objects.Live p)
    (k : Nat) : w'.field? p k = w.field? p k := by
  rw [World.field?, (h.kept p hp).2, World.field?]

theorem Made.classOf_of_live {o p : ObjectRef} (h : w.Made v c o w') (hp : w.objects.Live p) :
    w'.classOf p = w.classOf p := by
  rw [World.classOf, (h.kept p hp).2, World.classOf]

/-- The same class is allocated in both worlds, and the new pair is one more. -/
theorem Twin.made (h : Twin b₁ b₂ v R w₁ w₂) (hb : Counterparts b₁ b₂ v x)
    (hc : b₁.Registered v c) {w₁' w₂' : World β} (hm : w₁.Made v c o₁ w₁')
    (hm' : w₂.Made v c o₂ w₂') (ho : w₁.OnlyObjects w₁') (ho' : w₂.OnlyObjects w₂')
    (hR : ∀ p q, R' p q ↔ R p q ∨ p = o₁ ∧ q = o₂) : Twin b₁ b₂ v R' w₁' w₂' := by
  have hfresh : ∀ {p q}, R p q → p ≠ o₁ ∧ q ≠ o₂ := by
    intro p q hp
    refine ⟨?_, ?_⟩
    · rintro rfl
      exact hm.fresh (h.live hp)
    · rintro rfl
      exact hm'.fresh (h.live' hp)
  have hold : ∀ p q, R p q → R' p q := fun p q hp => (hR p q).mpr (Or.inl hp)
  have hstill := h.still.onlyObjects ho
  have hstill' := h.still'.onlyObjects ho'
  exact
    { still := hstill
      still' := hstill'
      one := by
        intro p q p' q' hp hp'
        rcases (hR p q).mp hp with hp | ⟨rfl, rfl⟩
        · rcases (hR p' q').mp hp' with hp' | ⟨rfl, rfl⟩
          · exact h.one hp hp'
          · obtain ⟨hne, hne'⟩ := hfresh hp
            exact ⟨fun heq => absurd heq.symm hne, fun heq => absurd heq.symm hne'⟩
        · rcases (hR p' q').mp hp' with hp' | ⟨rfl, rfl⟩
          · obtain ⟨hne, hne'⟩ := hfresh hp'
            exact ⟨fun heq => absurd heq hne, fun heq => absurd heq hne'⟩
          · exact ⟨fun _ => rfl, fun _ => rfl⟩
      live := by
        intro p q hp
        rcases (hR p q).mp hp with hp | ⟨rfl, rfl⟩
        · exact (hm.kept p (h.live hp)).1
        · exact hm.live
      live' := by
        intro p q hp
        rcases (hR p q).mp hp with hp | ⟨rfl, rfl⟩
        · exact (hm'.kept q (h.live' hp)).1
        · exact hm'.live
      cls := by
        intro p q hp
        rcases (hR p q).mp hp with hp | ⟨rfl, rfl⟩
        · rw [hm.classOf_of_live (h.live hp), hm'.classOf_of_live (h.live' hp)]
          exact h.cls hp
        · rw [hm.cls, hm'.cls]
      known := by
        intro p q hp
        rcases (hR p q).mp hp with hp | ⟨rfl, rfl⟩
        · rw [hm.classOf_of_live (h.live hp)]
          exact h.known hp
        · rw [hm.cls]
          exact hc
      fields := by
        intro p q k hp hk
        rcases (hR p q).mp hp with hp | ⟨rfl, rfl⟩
        · rw [isHandlerField, hstill.classes, hm.classOf_of_live (h.live hp),
            ← h.still.classes] at hk
          rw [hm.field?_of_live (h.live hp), hm'.field?_of_live (h.live' hp)]
          exact Value.Twin.rel_mono hold (h.fields hp hk)
        · rw [isHandlerField, hm.cls, hstill.classes, ← h.still.classes] at hk
          have hplain := beq_eq_false_iff_ne.mp hk
          have hsame : (w₁.classes.get c).fields = (w₂.classes.get c).fields := by
            rw [h.still.classes, h.still'.classes, hb.same.fields]
          rw [hm.fields hplain, hm'.fields (by rw [← hsame]; exact hplain), hsame]
          exact Value.Twin.rel_replicate _ k
      bound := by
        intro p q k r hp hrow
        rcases (hR p q).mp hp with hp | ⟨rfl, rfl⟩
        · rw [hm.classOf_of_live (h.live hp)] at hrow
          obtain ⟨handler, hlive, hfield, hcls⟩ := h.bound hp hrow
          refine ⟨handler, (hm.kept handler hlive).1, ?_, ?_⟩
          · rw [hm.field?_of_live (h.live hp)]
            exact hfield
          · rw [hm.classOf_of_live hlive]
            exact hcls
        · rw [hm.cls, ← h.still.interceptionOf, ← h.still.coreOf] at hrow
          exact hm.bound hrow }

theorem Twin.allocate (h : Twin b₁ b₂ v R w₁ w₂) (hb : Counterparts b₁ b₂ v x)
    (hc : b₁.Registered v c) : ∃ o₁ o₂, (w₁.allocate v c).1 = .value o₁ ∧
      (w₂.allocate v c).1 = .value o₂ ∧ ∀ R' : ObjectRef → ObjectRef → Prop,
      (∀ p q, R' p q ↔ R p q ∨ p = o₁ ∧ q = o₂) →
      Twin b₁ b₂ v R' (w₁.allocate v c).2 (w₂.allocate v c).2 := by
  have halone : ∀ {i r}, w₁.interceptionOf (w₁.coreOf v).registry c = some (i, r) →
      w₁.interceptionOf (w₁.coreOf v).registry r.handlerClass = none := by
    intro i r hr
    rw [h.still.coreOf, h.still.interceptionOf] at hr ⊢
    exact hb.discreet.handler_alone hr
  have halone' : ∀ {i r}, w₂.interceptionOf (w₂.coreOf v).registry c = some (i, r) →
      w₂.interceptionOf (w₂.coreOf v).registry r.handlerClass = none := by
    intro i r _
    rw [h.still'.interceptionOf]
    exact hb.rowless.interceptionOf _ _
  obtain ⟨o₁, w₁', heq, hm⟩ := h.still.sound.made (h.still.registered.mpr hc) halone
  obtain ⟨o₂, w₂', heq', hm'⟩ :=
    h.still'.sound.made (h.still'.registered.mpr (hb.same.registered.mp hc)) halone'
  have ho := onlyObjects_allocate w₁ v c
  have ho' := onlyObjects_allocate w₂ v c
  rw [heq] at ho ⊢
  rw [heq'] at ho' ⊢
  exact ⟨o₁, o₂, rfl, rfl, fun R' hR => h.made hb hc hm hm' ho ho' hR⟩

end World

/-! ### Plays side by side -/

namespace Play

variable {b₁ b₂ : World Routine} {v : VmRef} {p₁ p₂ : Play}

/-- Objects that were allocated at the same point. -/
def Pairs (p₁ p₂ : Play) (o₁ o₂ : ObjectRef) : Prop :=
  ∃ k : Nat, p₁.objects[k]? = some o₁ ∧ p₂.objects[k]? = some o₂

/-- As many objects were allocated, the worlds are twins, and nothing is being run. -/
structure Alike (b₁ b₂ : World Routine) (v : VmRef) (p₁ p₂ : Play) : Prop where
  count : p₁.objects.length = p₂.objects.length
  twin : World.Twin b₁ b₂ v (Pairs p₁ p₂) p₁.state.world p₂.state.world
  idle : p₁.state.thread = {}
  idle' : p₂.state.thread = {}

theorem pairs_snoc (hcount : p₁.objects.length = p₂.objects.length) (s₁ s₂ : State Routine Unit)
    (o₁ o₂ p q : ObjectRef) : Pairs ⟨s₁, p₁.objects ++ [o₁]⟩ ⟨s₂, p₂.objects ++ [o₂]⟩ p q ↔
      Pairs p₁ p₂ p q ∨ p = o₁ ∧ q = o₂ := by
  constructor
  · rintro ⟨k, hk, hk'⟩
    by_cases hlt : k < p₁.objects.length
    · have hlt' : k < p₂.objects.length := by omega
      rw [List.getElem?_append_left hlt] at hk
      rw [List.getElem?_append_left hlt'] at hk'
      exact Or.inl ⟨k, hk, hk'⟩
    · have hlast : k = p₁.objects.length := by
        have hbound := (List.getElem?_eq_some_iff.mp hk).1
        simp only [List.length_append, List.length_singleton] at hbound
        omega
      rw [hlast, List.getElem?_concat_length] at hk
      rw [hlast, hcount, List.getElem?_concat_length] at hk'
      cases hk
      cases hk'
      exact Or.inr ⟨rfl, rfl⟩
  · rintro (⟨k, hk, hk'⟩ | ⟨rfl, rfl⟩)
    · refine ⟨k, ?_, ?_⟩
      · rw [List.getElem?_append_left (List.getElem?_eq_some_iff.mp hk).1]
        exact hk
      · rw [List.getElem?_append_left (List.getElem?_eq_some_iff.mp hk').1]
        exact hk'
    · refine ⟨p₁.objects.length, List.getElem?_concat_length, ?_⟩
      rw [hcount]
      exact List.getElem?_concat_length

/-- What is given corresponds. -/
theorem Alike.given (h : Alike b₁ b₂ v p₁ p₂) (g : Given) :
    (p₁.given g).Twin (Pairs p₁ p₂) (p₂.given g) := by
  cases g with
  | scalar y => exact .scalar y
  | object k =>
    cases ho : p₁.objects[k]? with
    | none =>
      have ho' : p₂.objects[k]? = none := by
        rw [List.getElem?_eq_none_iff, ← h.count, ← List.getElem?_eq_none_iff]
        exact ho
      simp only [Play.given, ho, ho']
      exact .null
    | some o =>
      have hlt : k < p₂.objects.length := by
        rw [← h.count]
        exact (List.getElem?_eq_some_iff.mp ho).1
      have ho' := List.getElem?_eq_getElem hlt
      simp only [Play.given, ho, ho']
      exact .object ⟨k, ho, ho'⟩

theorem Alike.givens (h : Alike b₁ b₂ v p₁ p₂) (gs : List Given) :
    Twins (Pairs p₁ p₂) (gs.map p₁.given) (gs.map p₂.given) := by
  induction gs with
  | nil => exact .nil
  | cons g rest ih => exact .cons (h.given g) ih

/-! ### One step -/

/-- What the second of two steps does the first does as well. -/
structure StepsAlike (b₁ b₂ : World Routine) (v : VmRef) (p₁ p₂ : Play)
    (x₁ x₂ : Ending Value × Play) : Prop where
  ending : x₁.1.Twin (Pairs x₁.2 x₂.2) x₂.1
  alike : Alike b₁ b₂ v x₁.2 x₂.2
  kept : ∀ o o', Pairs p₁ p₂ o o' → Pairs x₁.2 x₂.2 o o'

theorem start_allocate (v : VmRef) (c : ClassRef) (s : State Routine Unit) :
    (Program.perform (.allocate v c)).start routines s =
      ((s.world.allocate v c).1, { s with world := (s.world.allocate v c).2 }) := by
  rw [Program.start, run_perform]
  show answered routines (.allocate v c)
    ((s.world.allocate v c).1, { s with world := (s.world.allocate v c).2 }) = _
  generalize s.world.allocate v c = x
  obtain ⟨e, w⟩ := x
  cases e with
  | value o => rfl
  | error e => rfl
  | panic text => rfl
  | endless => rfl

theorem start_callVirtual (v : VmRef) (o : ObjectRef) (name : String) (args : List Value)
    (s : State Routine Unit) :
    (Program.perform (.callVirtual v o name args)).start routines s =
      invokeVirtual (execute routines s.room) v o name args s := by
  rw [Program.start, run_perform]
  show answered routines (.callVirtual v o name args)
    (invokeVirtual (execute routines s.room) v o name args s) = _
  generalize invokeVirtual (execute routines s.room) v o name args s = x
  obtain ⟨e, u⟩ := x
  cases e with
  | value o => rfl
  | error e => rfl
  | panic text => rfl
  | endless => rfl

/-- A class allocated in both plays gives one pair more. -/
theorem Alike.allocate (h : Alike b₁ b₂ v p₁ p₂) (hb : World.Counterparts b₁ b₂ v .callThrough)
    {c : ClassRef} (hc : b₁.Registered v c) :
    StepsAlike b₁ b₂ v p₁ p₂ (p₁.allocate v c) (p₂.allocate v c) := by
  obtain ⟨o₁, o₂, hvalue, hvalue', htwin⟩ := h.twin.allocate hb hc
  have hplay : p₁.allocate v c = (.value (.object o₁),
      ⟨{ p₁.state with world := (p₁.state.world.allocate v c).2 }, p₁.objects ++ [o₁]⟩) := by
    simp only [Play.allocate, start_allocate, hvalue]
  have hplay' : p₂.allocate v c = (.value (.object o₂),
      ⟨{ p₂.state with world := (p₂.state.world.allocate v c).2 }, p₂.objects ++ [o₂]⟩) := by
    simp only [Play.allocate, start_allocate, hvalue']
  rw [hplay, hplay']
  have hpairs := pairs_snoc h.count { p₁.state with world := (p₁.state.world.allocate v c).2 }
    { p₂.state with world := (p₂.state.world.allocate v c).2 } o₁ o₂
  refine ⟨.value (.object ((hpairs o₁ o₂).mpr (Or.inr ⟨rfl, rfl⟩))), ?_, ?_⟩
  · refine ⟨?_, htwin _ hpairs, h.idle, h.idle'⟩
    show (p₁.objects ++ [o₁]).length = (p₂.objects ++ [o₂]).length
    rw [List.length_append, List.length_append, h.count]
    rfl
  · exact fun p q hp => (hpairs p q).mpr (Or.inl hp)

/-- A call on corresponding objects is mirrored. -/
theorem Alike.call (h : Alike b₁ b₂ v p₁ p₂) (hb : World.Counterparts b₁ b₂ v .callThrough)
    {o₁ o₂ : ObjectRef} (hR : Pairs p₁ p₂ o₁ o₂) (name : String) (args : List Given)
    (hflat : (invokeVirtual (execute routines p₂.state.room) v o₂ name (args.map p₂.given)
      p₂.state).1.overflows = false) :
    Mirrors b₁ b₂ v (Pairs p₁ p₂) p₁.state p₂.state
      (invokeVirtual (execute routines p₁.state.room) v o₁ name (args.map p₁.given) p₁.state)
      (invokeVirtual (execute routines p₂.state.room) v o₂ name (args.map p₂.given) p₂.state) := by
  have hbound := p₁.state.world.maxDepth_le_depthBound v
  rw [h.twin.still.maxDepth] at hbound
  have hcalls : MirrorsCalls b₁ b₂ v (Pairs p₁ p₂)
      (execute (routines : Host Routine Unit) p₁.state.room)
      (execute (routines : Host Routine Unit) p₂.state.room) p₁.state.thread p₂.state.thread := by
    refine mirrors_call hb _ _ ?_ ?_
    · rw [h.idle, h.idle']
      exact Nat.zero_le _
    · rw [State.room]
      omega
  exact hcalls.call rfl rfl h.twin hR (h.givens args) name hflat

theorem Alike.step (h : Alike b₁ b₂ v p₁ p₂) (hb : World.Counterparts b₁ b₂ v .callThrough)
    (s : Step) (hflat : (p₂.step v s).1.overflows = false) :
    StepsAlike b₁ b₂ v p₁ p₂ (p₁.step v s) (p₂.step v s) := by
  have hstay : ∀ {e e' : Ending Value}, e.Twin (Pairs p₁ p₂) e' →
      StepsAlike b₁ b₂ v p₁ p₂ (e, p₁) (e', p₂) :=
    fun he => ⟨he, h, fun _ _ hp => hp⟩
  cases s with
  | allocate name =>
    have hfind : p₁.state.world.findClass v name = p₂.state.world.findClass v name := by
      rw [h.twin.still.findClass, h.twin.still'.findClass, hb.same.findClass]
    cases hc : p₂.state.world.findClass v name with
    | none =>
      simp only [Play.step, hfind, hc]
      exact hstay (.error _)
    | some c =>
      simp only [Play.step, hfind, hc]
      refine h.allocate hb ?_
      rw [h.twin.still'.findClass, ← hb.same.findClass] at hc
      exact (hb.sound.homes.of_findClass hc).1
  | call k name args =>
    cases ho : p₁.objects[k]? with
    | none =>
      have ho' : p₂.objects[k]? = none := by
        rw [List.getElem?_eq_none_iff, ← h.count, ← List.getElem?_eq_none_iff]
        exact ho
      simp only [Play.step, ho, ho']
      exact hstay (.value .null)
    | some o =>
      have hlt : k < p₂.objects.length := by
        rw [← h.count]
        exact (List.getElem?_eq_some_iff.mp ho).1
      have ho' := List.getElem?_eq_getElem hlt
      simp only [Play.step, ho, ho', start_callVirtual] at hflat ⊢
      obtain ⟨hending, htwin, hthread, hthread'⟩ := h.call hb ⟨k, ho, ho'⟩ name args hflat
      exact ⟨hending, ⟨h.count, htwin, hthread.trans h.idle, hthread'.trans h.idle'⟩,
        fun _ _ hp => hp⟩

/-! ### Whole plays -/

/-- Two plays went alike: every step ended in corresponding values or in the same way
otherwise, and the objects allocated correspond in class and in every field but those for
handlers. -/
structure WentAlike (x₁ x₂ : List (Ending Value) × Play) : Prop where
  endings : List.Forall₂ (Ending.Twin (Pairs x₁.2 x₂.2)) x₁.1 x₂.1
  count : x₁.2.objects.length = x₂.2.objects.length
  cls : ∀ {o₁ o₂}, Pairs x₁.2 x₂.2 o₁ o₂ →
    x₁.2.state.world.classOf o₁ = x₂.2.state.world.classOf o₂
  fields : ∀ {o₁ o₂ i}, Pairs x₁.2 x₂.2 o₁ o₂ →
    x₁.2.state.world.isHandlerField o₁ i = false →
    Option.Rel (Value.Twin (Pairs x₁.2 x₂.2)) (x₁.2.state.world.field? o₁ i)
      (x₂.2.state.world.field? o₂ i)

/-- Steps keep plays alike. -/
theorem Alike.steps (h : Alike b₁ b₂ v p₁ p₂) (hb : World.Counterparts b₁ b₂ v .callThrough)
    (ss : List Step) (hflat : ∀ e ∈ (p₂.steps v ss).1, e.overflows = false) :
    List.Forall₂ (Ending.Twin (Pairs (p₁.steps v ss).2 (p₂.steps v ss).2)) (p₁.steps v ss).1
      (p₂.steps v ss).1 ∧ Alike b₁ b₂ v (p₁.steps v ss).2 (p₂.steps v ss).2 ∧
    ∀ o o', Pairs p₁ p₂ o o' → Pairs (p₁.steps v ss).2 (p₂.steps v ss).2 o o' := by
  induction ss generalizing p₁ p₂ with
  | nil => exact ⟨.nil, h, fun _ _ hp => hp⟩
  | cons s rest ih =>
    obtain ⟨hending, halike, hkept⟩ := h.step hb s (hflat _ List.mem_cons_self)
    obtain ⟨hendings, hlast, hkept'⟩ :=
      ih halike fun e he => hflat e (List.mem_cons_of_mem _ he)
    refine ⟨.cons (hending.mono hkept') hendings, hlast, ?_⟩
    intro o o' hp
    exact hkept' o o' (hkept o o' hp)

/-- The play on a machine of its own before anything is done. -/
def onMachine (options : VmOptions) (ds : List (ClassDecl Routine)) : Play :=
  { state := ⟨World.loaded options ds, {}, ()⟩ }

/-- A machine with rows and one without, loaded with the same declarations. -/
theorem counterparts_loaded (options options' : VmOptions) (ds : List (ClassDecl Routine))
    (hmode : options.mode = .perCall) (hrows : options'.rows = [])
    (hlimit : options.maxDepth = 4 * options'.maxDepth)
    (hdiscreet : (World.loaded options ds).Discreet ⟨0⟩ .callThrough) :
    World.Counterparts (World.loaded options ds) (World.loaded options' ds) ⟨0⟩ .callThrough where
  same := World.sameOutline_loaded options options' ds
  sound := World.sound_loaded options ds
  sound' := World.sound_loaded options' ds
  exact := World.exact_loaded options ds
  discreet := hdiscreet
  methodless := World.methodless_loaded options ds
  rowless := World.rowless_loaded hrows ds
  mode := by
    rw [World.coreOf_loaded]
    exact hmode
  limit := by
    rw [World.maxDepth_loaded, World.maxDepth_loaded]
    exact hlimit

theorem alike_loaded (options options' : VmOptions) (ds : List (ClassDecl Routine)) :
    Alike (World.loaded options ds) (World.loaded options' ds) ⟨0⟩ (onMachine options ds)
      (onMachine options' ds) := by
  have hnone : ∀ {o₁ o₂}, ¬ Pairs (onMachine options ds) (onMachine options' ds) o₁ o₂ := by
    rintro o₁ o₂ ⟨k, hk, -⟩
    cases hk
  exact
    { count := rfl
      twin :=
        { still := .refl (World.sound_loaded options ds)
          still' := .refl (World.sound_loaded options' ds)
          one := fun hp => absurd hp hnone
          live := fun hp => absurd hp hnone
          live' := fun hp => absurd hp hnone
          cls := fun hp => absurd hp hnone
          known := fun hp => absurd hp hnone
          fields := fun hp => absurd hp hnone
          bound := fun hp => absurd hp hnone }
      idle := rfl
      idle' := rfl }

/-- **Interception with handlers that call through cannot be seen.**  Whatever the classes
and whatever their bodies do with objects and scalars, a play on a machine that intercepts per
call goes as it does on a machine without rows and a quarter of the limit, as long as no call
of it overflows there. -/
theorem transparent (rows : List Row) (limit : Nat) (mode : SwapMode)
    (ds : List (ClassDecl Routine))
    (hdiscreet : (World.loaded { rows, mode := .perCall, maxDepth := 4 * limit } ds).Discreet ⟨0⟩
      .callThrough) (ss : List Step)
    (hflat : ∀ e ∈ ((onMachine { rows := [], mode, maxDepth := limit } ds).steps ⟨0⟩ ss).1,
      e.overflows = false) :
    WentAlike ((onMachine { rows, mode := .perCall, maxDepth := 4 * limit } ds).steps ⟨0⟩ ss)
      ((onMachine { rows := [], mode, maxDepth := limit } ds).steps ⟨0⟩ ss) := by
  have hb := counterparts_loaded { rows, mode := .perCall, maxDepth := 4 * limit }
    { rows := [], mode, maxDepth := limit } ds rfl rfl rfl hdiscreet
  have hstart := alike_loaded { rows, mode := .perCall, maxDepth := 4 * limit }
    { rows := [], mode, maxDepth := limit } ds
  obtain ⟨hendings, halike, -⟩ := hstart.steps hb ss hflat
  exact ⟨hendings, halike.count, fun hp => halike.twin.cls hp,
    fun hp hi => halike.twin.fields hp hi⟩

/-- The class of handlers, with the documented body. -/
def handlerDecl : ClassDecl Routine :=
  { name := Demo.handlerName, virtuals := [{ name := handlerMethod, body := some .callThrough }] }

/-- An activity that keeps what it is called with, and answers it by way of another method. -/
def activityDecl : ClassDecl Routine :=
  { name := Demo.activityName
    fields := [⟨handlerFieldName, handlerFieldType⟩, ⟨"state", "string"⟩]
    virtuals :=
      [{ name := Demo.methodName
         body := some (.recipe (.write 0 1 1 (.call 0 "state" [] (.give 2)))) },
       { name := "state", body := some (.recipe (.read 0 1 (.give 1))) }] }

/-- The activity's world with the row for it. -/
def activityWorld : World Routine :=
  World.loaded { rows := builtinRows, mode := .perCall, maxDepth := 8 } [handlerDecl, activityDecl]

theorem resolves_activity {g : RegistryRef} {i : Nat} {r : Resolution}
    (hr : activityWorld.Resolves g i r) : r = ⟨⟨3⟩, ⟨2⟩, 0, ⟨4⟩, ⟨3⟩⟩ := by
  have hregistries : activityWorld.registries.size = 1 := by decide +kernel
  have hentries : (activityWorld.registries.get ⟨0⟩).entries.size = 1 := by decide +kernel
  have hentry : (activityWorld.entry ⟨0⟩ 0).resolution = some ⟨⟨3⟩, ⟨2⟩, 0, ⟨4⟩, ⟨3⟩⟩ := by
    decide +kernel
  have hlive : g.index < activityWorld.registries.size := hr.live
  have hg : g = ⟨0⟩ := by
    cases g
    simp only [hregistries] at hlive
    simp only [Ref.mk.injEq]
    omega
  subst hg
  have hlt := hr.lt_size
  rw [hentries] at hlt
  have hi : i = 0 := by omega
  subst hi
  exact hr.unique hentry

theorem discreet_activity : activityWorld.Discreet ⟨0⟩ .callThrough where
  unstacked := by decide +kernel
  direct {c} hc hsuper := by
    have hall : ∀ c ∈ (activityWorld.vms.get ⟨0⟩).classes.classes.toList,
        (activityWorld.classes.get c).super? = some (activityWorld.vms.get ⟨0⟩).proxy →
        activityWorld.ownEntry (activityWorld.coreOf ⟨0⟩).registry c = none := by
      decide +kernel
    exact hall c (Array.mem_toList_iff.mpr hc) hsuper
  free {i r a} hr ha := by
    have hall : ∀ a ∈ activityWorld.lineage ⟨2⟩,
        activityWorld.ownEntry (activityWorld.coreOf ⟨0⟩).registry a = none := by
      decide +kernel
    rw [resolves_activity hr] at ha
    exact hall a ha
  body {i r} hr := by
    rw [resolves_activity hr]
    rfl

/-- The activity called once, with and without the row for it. -/
theorem transparent_activity :
    WentAlike
      ((onMachine { rows := builtinRows, mode := .perCall, maxDepth := 4 * 2 }
        [handlerDecl, activityDecl]).steps ⟨0⟩
          [.allocate Demo.activityName, .call 0 Demo.methodName [.scalar (.str "on")]])
      ((onMachine { rows := [], mode := .perCall, maxDepth := 2 }
        [handlerDecl, activityDecl]).steps ⟨0⟩
          [.allocate Demo.activityName, .call 0 Demo.methodName [.scalar (.str "on")]]) :=
  transparent builtinRows 2 .perCall [handlerDecl, activityDecl] discreet_activity _
    (by decide +kernel)

end Play

end Interception
