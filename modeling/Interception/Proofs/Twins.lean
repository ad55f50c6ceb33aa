/-
Worlds side by side.

Two worlds are twins if a machine has the same classes in both, nothing has moved in either
since but objects and counters, and there are objects in them that correspond: of one class,
with the same scalars or corresponding objects in every field that is not for a handler, and
with a handler in the first world wherever the first world asks for one.  Which objects
correspond is left open.  What a body of scalars and objects can see of one world it sees of
the other, and what it can write keeps them twins.
-/
import Mathlib.Data.List.Forall2
import Interception.Proofs.Wrapping
import Interception.Proofs.Recipes

namespace Interception

variable {β : Type} {R R' : ObjectRef → ObjectRef → Prop}

/-! ### Values -/

/-- The same scalar, or corresponding objects. -/
inductive Value.Twin (R : ObjectRef → ObjectRef → Prop) : Value → Value → Prop
  | scalar (x : Scalar) : Twin R x.toValue x.toValue
  | object {o o' : ObjectRef} (h : R o o') : Twin R (.object o) (.object o')

namespace Value.Twin

variable {x y : Value}

theorem null : Value.Twin R .null .null := .scalar .null

theorem mono (hR : ∀ o o', R o o' → R' o o') (h : x.Twin R y) : x.Twin R' y := by
  cases h with
  | scalar x => exact .scalar x
  | object h => exact .object (hR _ _ h)

theorem scalar?_eq (h : x.Twin R y) : x.scalar? = y.scalar? := by
  cases h with
  | scalar x => rfl
  | object h => rfl

/-- A value of a body is never a method. -/
theorem asMethod?_eq (h : x.Twin R y) : x.asMethod? = none ∧ y.asMethod? = none := by
  cases h with
  | scalar x => cases x <;> exact ⟨rfl, rfl⟩
  | object h => exact ⟨rfl, rfl⟩

theorem asObject?_eq (h : x.Twin R y) : (x.asObject? = none ∧ y.asObject? = none) ∨
    ∃ o o', R o o' ∧ x.asObject? = some o ∧ y.asObject? = some o' := by
  cases h with
  | scalar x =>
    refine Or.inl ?_
    cases x <;> exact ⟨rfl, rfl⟩
  | object h => exact Or.inr ⟨_, _, h, rfl, rfl⟩

/-- A field that is not there reads as null. -/
theorem getD {a a' : Option Value} (h : Option.Rel (Value.Twin R) a a') :
    (a.getD .null).Twin R (a'.getD .null) := by
  cases h with
  | some h => exact h
  | none => exact .null

theorem rel_mono (hR : ∀ o o', R o o' → R' o o') {a a' : Option Value}
    (h : Option.Rel (Value.Twin R) a a') : Option.Rel (Value.Twin R') a a' := by
  cases h with
  | some h => exact .some (h.mono hR)
  | none => exact .none

theorem rel_replicate (n k : Nat) : Option.Rel (Value.Twin R)
    (List.replicate n Value.null)[k]? (List.replicate n Value.null)[k]? := by
  rw [List.getElem?_replicate]
  split
  · exact .some .null
  · exact .none

end Value.Twin

/-- Twin values in the same registers. -/
abbrev Twins (R : ObjectRef → ObjectRef → Prop) : List Value → List Value → Prop :=
  List.Forall₂ (Value.Twin R)

theorem Twins.register {env env' : List Value} (h : Twins R env env') (k : Nat) :
    (register env k).Twin R (register env' k) := by
  induction h generalizing k with
  | nil => exact .null
  | cons hx _ ih =>
    cases k with
    | zero => exact hx
    | succ k => exact ih k

theorem Twins.snoc {env env' : List Value} (h : Twins R env env') {x y : Value}
    (hx : x.Twin R y) : Twins R (env ++ [x]) (env' ++ [y]) :=
  List.rel_append h (.cons hx .nil)

theorem Twins.registers {env env' : List Value} (h : Twins R env env') (ks : List Nat) :
    Twins R (ks.map (Interception.register env)) (ks.map (Interception.register env')) := by
  induction ks with
  | nil => exact .nil
  | cons k rest ih => exact .cons (h.register k) ih

/-- Both end in twin values, or both in the same error or panic, or neither ends. -/
inductive Ending.Twin (R : ObjectRef → ObjectRef → Prop) : Ending Value → Ending Value → Prop
  | value {x y : Value} (h : x.Twin R y) : Twin R (.value x) (.value y)
  | error (e : VmError) : Twin R (.error e) (.error e)
  | panic (text : String) : Twin R (.panic text) (.panic text)
  | endless : Twin R .endless .endless

theorem Ending.Twin.mono (hR : ∀ o o', R o o' → R' o o') {x y : Ending Value}
    (h : x.Twin R y) : x.Twin R' y := by
  cases h with
  | value h => exact .value (h.mono hR)
  | error e => exact .error e
  | panic text => exact .panic text
  | endless => exact .endless

/-- The run overflowed the stack, or says so. -/
def Ending.overflows {α : Type} : Ending α → Bool
  | .error (.stackOverflow _) => true
  | _ => false

/-! ### Worlds -/

namespace World

variable {b₁ b₂ w₁ w₂ w₁' w₂' : World β} {v : VmRef} {x : β} {o₁ o₂ : ObjectRef}
  {c : ClassRef} {name : String} {i k : Nat} {r : Resolution}

/-- Two worlds before anything runs: a machine has the same classes in both, in the first it
has rows and notes windows per call, in the second there are no rows, and it may go four
times as deep in the first. -/
structure Counterparts (b₁ b₂ : World β) (v : VmRef) (x : β) : Prop where
  same : SameOutline v b₁ b₂
  sound : b₁.Sound
  sound' : b₂.Sound
  exact : b₁.Exact
  discreet : b₁.Discreet v x
  methodless : b₁.Methodless v
  rowless : b₂.Rowless
  mode : (b₁.coreOf v).mode = .perCall
  limit : b₁.maxDepth v = 4 * b₂.maxDepth v

/-- A name leads to the same declaration in both, perhaps by way of a trampoline in the first. -/
theorem Counterparts.route (h : Counterparts b₁ b₂ v x) (hc : b₁.Registered v c)
    (hk : b₁.slotOf c name = some k) : ∃ d t, d.isTrampoline = false ∧
      b₁.declared? c name k = some d ∧ b₁.Route v c k x d ∧ b₂.slotOf c name = some k ∧
      b₂.methodAt c k = some t ∧ b₂.content t = d := by
  have hk' : b₂.slotOf c name = some k := by
    rw [← h.same.slotOf]
    exact hk
  obtain ⟨d, hd, hroute⟩ := h.discreet.route h.sound h.exact h.methodless hc hk
  obtain ⟨d', t, hd', ht, hcontent⟩ := h.rowless.direct h.sound' (h.same.registered.mp hc) hk'
  rw [← h.same.declared?, hd] at hd'
  cases hd'
  exact ⟨d, t, isTrampoline_of_declared? hd, hd, hroute, hk', ht, hcontent⟩

/-- Worlds that correspond object by object. -/
structure Twin (b₁ b₂ : World β) (v : VmRef) (R : ObjectRef → ObjectRef → Prop)
    (w₁ w₂ : World β) : Prop where
  still : b₁.Still w₁
  still' : b₂.Still w₂
  one : ∀ {o₁ o₂ p₁ p₂}, R o₁ o₂ → R p₁ p₂ → (p₁ = o₁ ↔ p₂ = o₂)
  live : ∀ {o₁ o₂}, R o₁ o₂ → w₁.objects.Live o₁
  live' : ∀ {o₁ o₂}, R o₁ o₂ → w₂.objects.Live o₂
  cls : ∀ {o₁ o₂}, R o₁ o₂ → w₁.classOf o₁ = w₂.classOf o₂
  known : ∀ {o₁ o₂}, R o₁ o₂ → b₁.Registered v (w₁.classOf o₁)
  fields : ∀ {o₁ o₂ i}, R o₁ o₂ → w₁.isHandlerField o₁ i = false →
    Option.Rel (Value.Twin R) (w₁.field? o₁ i) (w₂.field? o₂ i)
  bound : ∀ {o₁ o₂ i r}, R o₁ o₂ →
    b₁.interceptionOf (b₁.coreOf v).registry (w₁.classOf o₁) = some (i, r) →
    ∃ handler, w₁.objects.Live handler ∧
      (w₁.field? o₁ r.handlerOffset).bind Value.asObject? = some handler ∧
      w₁.classOf handler = r.handlerClass

namespace Twin

variable (h : Twin b₁ b₂ v R w₁ w₂)
include h

/-- The handler that the first world asks for is there. -/
theorem handled (hR : R o₁ o₂)
    (hordinary : (w₁.classes.get (w₁.classOf o₁)).super? ≠ some (w₁.vms.get v).proxy)
    (hrow : w₁.interceptionOf (w₁.coreOf v).registry (w₁.classOf o₁) = some (i, r)) :
    ∃ handler, w₁.Bound v o₁ i r handler := by
  have hrow' := hrow
  rw [h.still.coreOf, h.still.interceptionOf] at hrow'
  obtain ⟨handler, -, hfield, hcls⟩ := h.bound hR hrow'
  exact ⟨handler, beq_eq_false_iff_ne.mpr hordinary, hrow, hfield, hcls⟩

theorem className (hs : SameOutline v b₁ b₂) (hR : R o₁ o₂) :
    w₁.className (w₁.classOf o₁) = w₂.className (w₂.classOf o₂) := by
  rw [h.still.className, h.still'.className, ← h.cls hR, hs.className]

/-- A name means the same for corresponding objects, perhaps by way of a trampoline in the
first world. -/
theorem lookup (hb : Counterparts b₁ b₂ v x) (hR : R o₁ o₂) (name : String) :
    (w₁.slotOf (w₁.classOf o₁) name = none ∧ w₂.slotOf (w₂.classOf o₂) name = none) ∨
    ∃ k d t, d.isTrampoline = false ∧ w₁.slotOf (w₁.classOf o₁) name = some k ∧
      w₁.declared? (w₁.classOf o₁) name k = some d ∧ w₁.Route v (w₁.classOf o₁) k x d ∧
      w₂.slotOf (w₂.classOf o₂) name = some k ∧ w₂.methodAt (w₂.classOf o₂) k = some t ∧
      w₂.content t = d := by
  rw [← h.cls hR, h.still.slotOf, h.still'.slotOf, ← hb.same.slotOf]
  cases hk : b₁.slotOf (w₁.classOf o₁) name with
  | none => exact Or.inl ⟨rfl, rfl⟩
  | some k =>
    obtain ⟨d, t, hd, hdeclared, hroute, -, ht, hcontent⟩ := hb.route (h.known hR) hk
    refine Or.inr ⟨k, d, t, hd, rfl, ?_, h.still.route hroute, rfl, ?_, ?_⟩
    · rw [h.still.declared?]
      exact hdeclared
    · rw [h.still'.methodAt]
      exact ht
    · rw [h.still'.content]
      exact hcontent

theorem isHandlerField_eq (hs : SameOutline v b₁ b₂) (hR : R o₁ o₂) (i : Nat) :
    w₁.isHandlerField o₁ i = w₂.isHandlerField o₂ i := by
  rw [isHandlerField, isHandlerField, h.still.classes, h.still'.classes, ← h.cls hR, hs.fields]

/-- Corresponding objects have as many fields. -/
theorem length_eq (hs : SameOutline v b₁ b₂) (hR : R o₁ o₂) :
    (w₁.objects.get o₁).fields.length = (w₂.objects.get o₂).fields.length := by
  rw [h.still.sound.peopled.fields (h.live hR), h.still'.sound.peopled.fields (h.live' hR),
    h.still.classes, h.still'.classes, ← h.cls hR, hs.fields]

/-- Counting windows keeps worlds twins. -/
theorem calm (hc : w₁.Calm w₁') (hc' : w₂.Calm w₂') : Twin b₁ b₂ v R w₁' w₂' := by
  have hobjects := hc.shifts.objects
  have hobjects' := hc'.shifts.objects
  exact
    { still := h.still.calm hc
      still' := h.still'.calm hc'
      one := h.one
      live := by
        intro _ _ hR
        rw [hobjects]
        exact h.live hR
      live' := by
        intro _ _ hR
        rw [hobjects']
        exact h.live' hR
      cls := by
        intro _ _ hR
        rw [hc.classOf, hc'.classOf]
        exact h.cls hR
      known := by
        intro _ _ hR
        rw [hc.classOf]
        exact h.known hR
      fields := by
        intro _ _ _ hR hfield
        rw [isHandlerField, hc.classOf, hc.classes] at hfield
        rw [field?, field?, hobjects, hobjects']
        exact h.fields hR hfield
      bound := by
        intro _ _ _ _ hR hrow
        rw [hc.classOf] at hrow
        obtain ⟨handler, hlive, hfield, hcls⟩ := h.bound hR hrow
        refine ⟨handler, ?_, ?_, ?_⟩
        · rw [hobjects]
          exact hlive
        · rw [field?, hobjects]
          exact hfield
        · rw [hc.classOf]
          exact hcls }

end Twin

/-! ### Writing a field -/

theorem onlyObjects_putField {w : World β} {o : ObjectRef} {i : Nat}
    (hi : i < (w.objects.get o).fields.length) (y : Value) : w.OnlyObjects (w.putField o i y) :=
  onlyObjects_setField (setField_eq hi y)

theorem field?_putField_self {w : World β} {o : ObjectRef} (ho : w.objects.Live o) (i : Nat)
    (y : Value) (j : Nat) : (w.putField o i y).field? o j =
      if i = j then (w.field? o j).map fun _ => y else w.field? o j := by
  rw [field?, get_putField_self ho, field?, List.getElem?_set]
  by_cases hij : i = j
  · subst hij
    rw [if_pos rfl, if_pos rfl]
    by_cases hlt : i < (w.objects.get o).fields.length
    · rw [if_pos hlt, List.getElem?_eq_getElem hlt]
      rfl
    · rw [if_neg hlt, List.getElem?_eq_none (Nat.le_of_not_lt hlt)]
      rfl
  · rw [if_neg hij, if_neg hij]

theorem field?_putField_of_ne {w : World β} {o p : ObjectRef} (hp : p ≠ o) (i : Nat) (y : Value)
    (j : Nat) : (w.putField o i y).field? p j = w.field? p j := by
  rw [field?, get_putField_of_ne hp, field?]

theorem rel_map_const {α γ : Type} {P : α → γ → Prop} {a : Option α} {c : Option γ}
    (h : Option.Rel P a c) {y : α} {z : γ} (hy : P y z) :
    Option.Rel P (a.map fun _ => y) (c.map fun _ => z) := by
  cases h with
  | some _ => exact .some hy
  | none => exact .none

/-- Twin values written to corresponding fields keep worlds twins. -/
theorem Twin.putField (h : Twin b₁ b₂ v R w₁ w₂) (hb : Counterparts b₁ b₂ v x) (hR : R o₁ o₂)
    (hi : i < (w₁.objects.get o₁).fields.length) (hplain : w₁.isHandlerField o₁ i = false)
    {y z : Value} (hy : y.Twin R z) :
    Twin b₁ b₂ v R (w₁.putField o₁ i y) (w₂.putField o₂ i z) := by
  have honly := onlyObjects_putField hi y
  have honly' : w₂.OnlyObjects (w₂.putField o₂ i z) :=
    onlyObjects_putField (by rw [← h.length_eq hb.same hR]; exact hi) z
  have hclass : ∀ {p}, w₁.objects.Live p → (w₁.putField o₁ i y).classOf p = w₁.classOf p :=
    fun hp => (honly.objects _ hp).2.1
  have hclass' : ∀ {p}, w₂.objects.Live p → (w₂.putField o₂ i z).classOf p = w₂.classOf p :=
    fun hp => (honly'.objects _ hp).2.1
  exact
    { still := h.still.onlyObjects honly
      still' := h.still'.onlyObjects honly'
      one := h.one
      live := fun hp => (honly.objects _ (h.live hp)).1
      live' := fun hp => (honly'.objects _ (h.live' hp)).1
      cls := by
        intro _ _ hp
        rw [hclass (h.live hp), hclass' (h.live' hp)]
        exact h.cls hp
      known := by
        intro _ _ hp
        rw [hclass (h.live hp)]
        exact h.known hp
      fields := by
        intro p₁ p₂ j hp hj
        rw [isHandlerField, hclass (h.live hp)] at hj
        have hold := h.fields hp hj
        by_cases hsame : p₁ = o₁
        · have hsame' := (h.one hR hp).mp hsame
          subst hsame hsame'
          rw [field?_putField_self (h.live hp), field?_putField_self (h.live' hp)]
          by_cases hij : i = j
          · rw [if_pos hij, if_pos hij]
            exact rel_map_const hold hy
          · rw [if_neg hij, if_neg hij]
            exact hold
        · have hsame' : p₂ ≠ o₂ := fun heq => hsame ((h.one hR hp).mpr heq)
          rw [field?_putField_of_ne hsame, field?_putField_of_ne hsame']
          exact hold
      bound := by
        intro p₁ p₂ j r hp hrow
        rw [hclass (h.live hp)] at hrow
        obtain ⟨handler, hlive, hfield, hcls⟩ := h.bound hp hrow
        refine ⟨handler, (honly.objects _ hlive).1, ?_, (hclass hlive).trans hcls⟩
        by_cases hsame : p₁ = o₁
        · subst hsame
          -- The field written is none for handlers.
          obtain ⟨-, hres, habove⟩ := interceptionOf_eq_some.mp hrow
          have hoffset := hb.sound.handlerField hres habove
          have hne : i ≠ r.handlerOffset := by
            intro heq
            rw [isHandlerField, h.still.classes, heq, hoffset, beq_self_eq_true] at hplain
            cases hplain
          rw [field?_putField_self (h.live hp), if_neg hne]
          exact hfield
        · rw [field?_putField_of_ne hsame]
          exact hfield }

end World

end Interception
