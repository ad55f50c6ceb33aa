/-
What an allocation makes.

Where the handler class is not intercepted itself, allocating an instance of an intercepted
class makes two objects: the instance, and then its handler, which is stored in the
instance's handler field.  An instance of any other class is made alone.  No object that
was there before is touched, and the instance is bound from then on.
-/
import Interception.Proofs.CallThrough

namespace Interception.World

variable {β : Type} {w w' : World β} {v : VmRef} {c : ClassRef} {i : Nat} {r : Resolution}
  {o : ObjectRef}

/-! ### Fields for handlers -/

/-- A field of this position is where a handler would be kept. -/
def isHandlerField (w : World β) (o : ObjectRef) (i : Nat) : Bool :=
  (w.classes.get (w.classOf o)).fields[i]? == some ⟨handlerFieldName, handlerFieldType⟩

/-- The offset of an entry is that of a handler field, in every class derived from the one
it was filled in for. -/
theorem Sound.handlerField (hw : w.Sound) {g : RegistryRef} (hr : w.Resolves g i r)
    (hmem : r.cls ∈ w.lineage c) : (w.classes.get c).fields[r.handlerOffset]? =
      some ⟨handlerFieldName, handlerFieldType⟩ := by
  have hoffset := hw.filled.offset hr
  rw [Class.fieldOffset, List.findIdx?_eq_some_iff_getElem] at hoffset
  obtain ⟨hlt, hfield, -⟩ := hoffset
  have hown : (w.classes.get r.cls).fields[r.handlerOffset]? =
      some ⟨handlerFieldName, handlerFieldType⟩ := by
    rw [List.getElem?_eq_getElem hlt]
    simp only [Bool.and_eq_true, beq_iff_eq] at hfield
    congr 1
    cases hx : (w.classes.get r.cls).fields[r.handlerOffset] with
    | mk name type =>
      rw [hx] at hfield
      obtain ⟨hname, htype⟩ := hfield
      rw [show name = handlerFieldName from hname, show type = handlerFieldType from htype]
  rcases List.mem_cons.mp hmem with heq | hbelow
  · rw [← heq]
    exact hown
  · obtain ⟨rest, hrest⟩ := hw.lineages.fields hbelow
    rw [← hrest, List.getElem?_append_left hlt]
    exact hown

/-! ### What is made -/

/-- The instance made, in the world afterwards. -/
structure Made (w : World β) (v : VmRef) (c : ClassRef) (o : ObjectRef) (w' : World β) : Prop
    where
  fresh : ¬ w.objects.Live o
  live : w'.objects.Live o
  kept : w.objects.Keeps w'.objects
  cls : w'.classOf o = c
  fields : ∀ {k : Nat}, (w.classes.get c).fields[k]? ≠ some ⟨handlerFieldName, handlerFieldType⟩ →
    w'.field? o k = (List.replicate (w.classes.get c).fields.length Value.null)[k]?
  bound : ∀ {i r}, w.interceptionOf (w.coreOf v).registry c = some (i, r) → ∃ handler,
    w'.objects.Live handler ∧
    (w'.field? o r.handlerOffset).bind Value.asObject? = some handler ∧
    w'.classOf handler = r.handlerClass

/-- One more allocation on the machine's account. -/
def counted (w : World β) (v : VmRef) : World β :=
  w.modifyVm v fun k => { k with allocations := k.allocations + 1 }

/-- A field written. -/
def putField (w : World β) (o : ObjectRef) (k : Nat) (x : Value) : World β :=
  { w with objects := w.objects.modify o fun y => { y with fields := y.fields.set k x } }

theorem setField_eq {k : Nat} (h : k < (w.objects.get o).fields.length) (x : Value) :
    w.setField o k x = .ok (w.putField o k x) := by
  simp only [setField, if_pos h, putField]

theorem get_putField_self (h : w.objects.Live o) (k : Nat) (x : Value) :
    (w.putField o k x).objects.get o =
      { w.objects.get o with fields := (w.objects.get o).fields.set k x } :=
  Store.get_modify_self h _

theorem get_putField_of_ne {o' : ObjectRef} (h : o' ≠ o) (k : Nat) (x : Value) :
    (w.putField o k x).objects.get o' = w.objects.get o' := Store.get_modify_of_ne h _

theorem get_newObject (w : World β) (c : ClassRef) : (w.newObject c).2.objects.get w.objects.next =
    ⟨c, List.replicate (w.classes.get c).fields.length .null⟩ := Store.get_add_next _ _

theorem classOf_newObject (w : World β) (c : ClassRef) :
    (w.newObject c).2.classOf w.objects.next = c := by
  rw [classOf, get_newObject]

/-- An instance of a class that is not intercepted is made alone. -/
theorem allocateWithin_alone {fuel : Nat} (hc : (w.classes.get c).initialized = true)
    (hnone : w.interceptionOf (w.coreOf v).registry c = none) :
    allocateWithin v (fuel + 1) w c =
      (.value w.objects.next, (w.newObject c).2.counted v) := by
  have hclass : (w.newObject c).2.interceptionOf ((w.newObject c).2.coreOf v).registry
      ((w.newObject c).2.classOf w.objects.next) = none := by
    rw [classOf_newObject]
    exact hnone
  rw [allocateWithin, if_pos hc]
  show Ending.andThen (bindWith (allocateWithin v fuel) (w.newObject c).2
    ((w.newObject c).2.coreOf v).registry w.objects.next) _ = _
  rw [bindWith]
  simp only [hclass]
  rfl

/-- An instance of an intercepted class is followed by its handler. -/
theorem allocateWithin_bound (fuel : Nat) (hc : (w.classes.get c).initialized = true)
    (hr : w.interceptionOf (w.coreOf v).registry c = some (i, r))
    (hhandler : (w.classes.get r.handlerClass).initialized = true)
    (hnone : w.interceptionOf (w.coreOf v).registry r.handlerClass = none)
    (hoffset : r.handlerOffset < (w.classes.get c).fields.length) :
    allocateWithin v (fuel + 2) w c =
      (.value w.objects.next,
        ((((w.newObject c).2.newObject r.handlerClass).2.counted v).putField w.objects.next
          r.handlerOffset (.object (w.newObject c).2.objects.next)).counted v) := by
  have hclass : (w.newObject c).2.interceptionOf ((w.newObject c).2.coreOf v).registry
      ((w.newObject c).2.classOf w.objects.next) = some (i, r) := by
    rw [classOf_newObject]
    exact hr
  have hsecond : allocateWithin v (fuel + 1) (w.newObject c).2 r.handlerClass =
      (.value (w.newObject c).2.objects.next,
        ((w.newObject c).2.newObject r.handlerClass).2.counted v) :=
    allocateWithin_alone hhandler hnone
  have hcount : r.handlerOffset <
      ((((w.newObject c).2.newObject r.handlerClass).2.counted v).objects.get
        w.objects.next).fields.length := by
    have hkept : (((w.newObject c).2.newObject r.handlerClass).2.counted v).objects.get
        w.objects.next = (w.newObject c).2.objects.get w.objects.next :=
      Store.get_add_of_live (Store.live_next_add _ _) _
    rw [hkept, get_newObject, List.length_replicate]
    exact hoffset
  rw [allocateWithin, if_pos hc]
  show Ending.andThen (bindWith (allocateWithin v (fuel + 1)) (w.newObject c).2
    ((w.newObject c).2.coreOf v).registry w.objects.next) _ = _
  rw [bindWith]
  simp only [hclass, hsecond, Ending.andThen_value, setField_eq hcount]
  rfl

/-- The instance and its handler, once the one is stored in the other. -/
theorem made_bound (hr : w.interceptionOf (w.coreOf v).registry c = some (i, r))
    (hfield : (w.classes.get c).fields[r.handlerOffset]? =
      some ⟨handlerFieldName, handlerFieldType⟩) :
    w.Made v c w.objects.next
      (((((w.newObject c).2.newObject r.handlerClass).2.counted v).putField w.objects.next
        r.handlerOffset (.object (w.newObject c).2.objects.next)).counted v) := by
  have hoffset := (List.getElem?_eq_some_iff.mp hfield).1
  have hlive : ((w.newObject c).2.newObject r.handlerClass).2.objects.Live w.objects.next :=
    (Store.live_next_add _ _).add _
  have hfirst : ((w.newObject c).2.newObject r.handlerClass).2.objects.get w.objects.next =
      ⟨c, List.replicate (w.classes.get c).fields.length .null⟩ := by
    rw [← get_newObject]
    exact Store.get_add_of_live (Store.live_next_add _ _) _
  have hne : (w.newObject c).2.objects.next ≠ w.objects.next :=
    fun h => (Store.live_next_add w.objects _).ne_next h.symm
  generalize hy : ((w.newObject c).2.newObject r.handlerClass).2 = y at hlive hfirst ⊢
  have hself : (((y.counted v).putField w.objects.next r.handlerOffset
      (.object (w.newObject c).2.objects.next)).counted v).objects.get w.objects.next =
      ⟨c, (List.replicate (w.classes.get c).fields.length Value.null).set r.handlerOffset
        (.object (w.newObject c).2.objects.next)⟩ := by
    have hput := get_putField_self (w := y.counted v) (o := w.objects.next) hlive
      r.handlerOffset (.object (w.newObject c).2.objects.next)
    refine hput.trans ?_
    show ({ y.objects.get w.objects.next with
      fields := (y.objects.get w.objects.next).fields.set _ _ } : Object) = _
    rw [hfirst]
  have hother : ∀ q, q ≠ w.objects.next → (((y.counted v).putField w.objects.next
      r.handlerOffset (.object (w.newObject c).2.objects.next)).counted v).objects.get q =
      y.objects.get q := fun q hq => get_putField_of_ne hq _ _
  exact
    { fresh := w.objects.not_live_next
      live := (Store.live_modify ..).mpr hlive
      kept := by
        intro q hq
        have hq' : (w.newObject c).2.objects.Live q := hq.add _
        refine ⟨(Store.live_modify ..).mpr (by rw [← hy]; exact hq'.add _), ?_⟩
        rw [hother q hq.ne_next, ← hy]
        exact (Store.get_add_of_live hq' _).trans (Store.get_add_of_live hq _)
      cls := congrArg Object.cls hself
      fields := by
        intro k hk
        have hne' : r.handlerOffset ≠ k := fun h => hk (by rw [← h]; exact hfield)
        rw [World.field?, hself]
        exact List.getElem?_set_ne hne'
      bound := by
        intro i' r' hr'
        rw [hr] at hr'
        cases hr'
        refine ⟨(w.newObject c).2.objects.next, ?_, ?_, ?_⟩
        · refine (Store.live_modify ..).mpr ?_
          rw [← hy]
          exact Store.live_next_add _ _
        · rw [World.field?, hself]
          simp [hoffset, Value.asObject?]
        · rw [World.classOf, hother _ hne, ← hy]
          exact congrArg Object.cls (Store.get_add_next _ _) }

/-- Where the handler class is not intercepted itself, the allocation succeeds. -/
theorem Sound.made (hw : w.Sound) (hc : w.Registered v c)
    (hfree : ∀ {i r}, w.interceptionOf (w.coreOf v).registry c = some (i, r) →
      w.interceptionOf (w.coreOf v).registry r.handlerClass = none) :
    ∃ o w', w.allocate v c = (.value o, w') ∧ w.Made v c o w' := by
  have hready := hw.homes.ready hc
  have hsize : 0 < w.classes.size := Nat.lt_of_le_of_lt (Nat.zero_le _) (hw.homes.live hc)
  obtain ⟨fuel, hfuel⟩ : ∃ fuel, w.classes.size + 1 = fuel + 2 := ⟨w.classes.size - 1, by omega⟩
  cases hr : w.interceptionOf (w.coreOf v).registry c with
  | none =>
    refine ⟨_, _, allocateWithin_alone hready hr, ?_⟩
    exact
      { fresh := w.objects.not_live_next
        live := Store.live_next_add _ _
        kept := Store.keeps_add _ _
        cls := classOf_newObject w c
        fields := by
          intro _ _
          show ((w.newObject c).2.objects.get w.objects.next).fields[_]? = _
          rw [get_newObject]
        bound := by
          intro _ _ hr'
          rw [hr] at hr'
          cases hr' }
  | some x =>
    obtain ⟨i, r⟩ := x
    obtain ⟨-, hres, habove⟩ := interceptionOf_eq_some.mp hr
    obtain ⟨u, hu, -, -⟩ := hw.filled.handler hres
    have hfield := hw.handlerField hres habove
    have hoffset := (List.getElem?_eq_some_iff.mp hfield).1
    have heq := allocateWithin_bound (v := v) fuel hready hr (hw.homes.ready hu) (hfree hr)
      hoffset
    rw [← hfuel] at heq
    exact ⟨_, _, heq, made_bound hr hfield⟩

/-- Where only objects were made, rows are what they were. -/
theorem OnlyObjects.interceptionOf (h : w.OnlyObjects w') (g : RegistryRef) (c : ClassRef) :
    w'.interceptionOf g c = w.interceptionOf g c := by
  rw [h.rest]
  rfl

/-- **An intercepted instance is bound by its allocation.** -/
theorem Made.binds (h : w.Made v c o w') (ho : w.OnlyObjects w')
    (hr : w.interceptionOf (w.coreOf v).registry c = some (i, r))
    (hp : w'.isProxyInstance v o = false) :
    ∃ handler, w'.objects.Live handler ∧ w'.Bound v o i r handler := by
  obtain ⟨handler, hlive, hfield, hcls⟩ := h.bound hr
  have hcore : w'.coreOf v = w.coreOf v := (ho.alike v).core
  refine ⟨handler, hlive, hp, ?_, hfield, hcls⟩
  rw [hcore, ho.interceptionOf, h.cls]
  exact hr

end Interception.World
