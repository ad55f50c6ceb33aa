/-
Objects that hold objects.

Allocating stores each handler it makes in the object it is for, and nowhere else.  So as long
as nobody writes fields by hand, an object is held by one field at most, and what a field holds
it keeps: a handler belongs to one instance, for good.

The induction follows the chain of handler classes.  What carries it is that the allocation of
a handler touches no object that was there before, and that nothing holds the handler when it
is returned.
-/
import Interception.Proofs.Binding

namespace Interception

variable {β H : Type}

namespace World

variable {w w' w'' : World β} {v : VmRef} {c d : ClassRef} {o p q h : ObjectRef} {i j : Nat}
  {e e' : Ending ObjectRef}

/-! ### Fields -/

/-- What is held was made, and is held once. -/
structure Owned (w : World β) : Prop where
  live : ∀ {o i h}, w.field? o i = some (.object h) → w.objects.Live h
  once : ∀ {o p i j h}, w.field? o i = some (.object h) → w.field? p j = some (.object h) →
    o = p ∧ i = j

/-- Nothing holds the object. -/
def Loose (w : World β) (h : ObjectRef) : Prop := ∀ o i, w.field? o i ≠ some (.object h)

theorem Owned.empty : ({} : World β).Owned where
  live h := by cases h
  once h := by cases h

theorem Owned.of_objects (hw : w.Owned) (ho : w'.objects = w.objects) : w'.Owned where
  live hf := by
    rw [ho]
    rw [field?, ho] at hf
    exact hw.live hf
  once hf hf' := by
    rw [field?, ho] at hf hf'
    exact hw.once hf hf'

theorem field?_of_keeps (hk : w.objects.Keeps w'.objects) (ho : w.objects.Live o) (i : Nat) :
    w'.field? o i = w.field? o i := by
  rw [field?, (hk o ho).2, field?]

/-- The fields of a new object hold nothing. -/
theorem field?_newObject (hf : (w.newObject c).2.field? o i = some (.object h)) :
    w.field? o i = some (.object h) := by
  by_cases ho : w.objects.Live o
  · rw [field?_of_keeps (Store.keeps_add _ _) ho] at hf
    exact hf
  · by_cases hnext : o = w.objects.next
    · rw [hnext, field?, get_newObject] at hf
      have hnull := List.eq_of_mem_replicate (List.mem_of_getElem? hf)
      cases hnull
    · have hdead : ¬ (w.newObject c).2.objects.Live o := fun hlive =>
        ((Store.live_add_iff _ _ o).mp hlive).elim ho hnext
      rw [field?, Store.get_of_not_live hdead] at hf
      cases hf

theorem Owned.newObject (hw : w.Owned) (c : ClassRef) : (w.newObject c).2.Owned where
  live hf := (hw.live (field?_newObject hf)).add _
  once hf hf' := hw.once (field?_newObject hf) (field?_newObject hf')

/-- After a write the field written holds what was written, and no other field has changed. -/
theorem field?_setField {x : Value} (hset : w.setField o i x = .ok w') :
    w'.field? o i = some x ∧ ∀ {p j}, ¬ (p = o ∧ j = i) → w'.field? p j = w.field? p j := by
  unfold setField at hset
  simp only at hset
  split at hset
  · rename_i hlt
    cases hset
    have ho : w.objects.Live o := by
      by_contra hno
      rw [Store.get_of_not_live hno] at hlt
      exact Nat.not_lt_zero _ hlt
    have hself := Store.get_modify_self ho
      fun y : Object => { y with fields := y.fields.set i x }
    refine ⟨?_, fun {p j} hne => ?_⟩
    · rw [field?, hself]
      exact List.getElem?_set_self hlt
    · by_cases hp : p = o
      · subst hp
        rw [field?, hself]
        exact List.getElem?_set_ne fun hij => hne ⟨rfl, hij.symm⟩
      · rw [field?, Store.get_modify_of_ne hp, field?]
  · cases hset

theorem objects_setField_of_ne {x : Value} (hset : w.setField o i x = .ok w') (hp : p ≠ o) :
    w'.objects.get p = w.objects.get p := by
  unfold World.setField at hset
  simp only at hset
  split at hset
  · cases hset
    exact Store.get_modify_of_ne hp _
  · cases hset

/-- Storing an object that nothing holds. -/
theorem Owned.setField (hw : w.Owned) (hlive : w.objects.Live h) (hloose : w.Loose h)
    (hset : w.setField o i (.object h) = .ok w') : w'.Owned := by
  obtain ⟨hself, hother⟩ := field?_setField hset
  have honly := onlyObjects_setField hset
  refine ⟨fun {p j q} hf => ?_, fun {p p' j j' q} hf hf' => ?_⟩
  · by_cases hp : p = o ∧ j = i
    · obtain ⟨rfl, rfl⟩ := hp
      rw [hself] at hf
      cases hf
      exact (honly.objects _ hlive).1
    · rw [hother hp] at hf
      exact (honly.objects _ (hw.live hf)).1
  · by_cases hp : p = o ∧ j = i
    · obtain ⟨rfl, rfl⟩ := hp
      rw [hself] at hf
      cases hf
      by_cases hp' : p' = p ∧ j' = j
      · exact ⟨hp'.1.symm, hp'.2.symm⟩
      · rw [hother hp'] at hf'
        exact absurd hf' (hloose p' j')
    · rw [hother hp] at hf
      by_cases hp' : p' = o ∧ j' = i
      · obtain ⟨rfl, rfl⟩ := hp'
        rw [hself] at hf'
        cases hf'
        exact absurd hf (hloose p j)
      · rw [hother hp'] at hf'
        exact hw.once hf hf'

/-! ### Allocating -/

/-- What an allocation returns: an instance that nothing holds yet, with a handler of its own if
its class is intercepted. -/
structure Yields (w : World β) (v : VmRef) (c : ClassRef) (o : ObjectRef) (w' : World β) : Prop
    where
  fresh : ¬ w.objects.Live o
  live : w'.objects.Live o
  cls : w'.classOf o = c
  loose : w'.Loose o
  bound : ∀ {i r}, w.interceptionOf (w.coreOf v).registry c = some (i, r) →
    ∃ h, w'.field? o r.handlerOffset = some (.object h) ∧ ¬ w.objects.Live h ∧
      w'.classOf h = r.handlerClass

/-- The object is of the class that a row that was settled names for its handlers. -/
def Serves (w : World β) (h : ObjectRef) : Prop :=
  ∃ g i r, w.Resolves g i r ∧ w.classOf h = r.handlerClass

theorem Serves.of_grows (hs : w.Serves h) (hg : w.Grows w') (hh : w.objects.Live h) :
    w'.Serves h := by
  obtain ⟨g, i, r, hr, hcls⟩ := hs
  exact ⟨g, i, r, hg.resolved hr, (hg.objects h hh).2.1.trans hcls⟩

/-- What an allocation does, whether or not it returns: objects that were there are as they
were, and only new ones are held that were not held before, as handlers. -/
structure Allocates (w : World β) (v : VmRef) (c : ClassRef) (e : Ending ObjectRef)
    (w' : World β) : Prop where
  owned : w'.Owned
  kept : w.objects.Keeps w'.objects
  held : ∀ {o i h}, w'.field? o i = some (.object h) →
    w.field? o i = some (.object h) ∨ ¬ w.objects.Live h ∧ w'.Serves h
  value : ∀ {o}, e = .value o → w.Yields v c o w'

namespace Allocates

/-- An allocation that ends otherwise before anything is made. -/
theorem nothing (hw : w.Owned) (he : ∀ o, e ≠ .value o) : w.Allocates v c e w where
  owned := hw
  kept := .refl _
  held hf := Or.inl hf
  value h := absurd h (he _)

/-- A new object that gets no handler. -/
theorem alone (hw : w.Owned) (hnone : w.interceptionOf (w.coreOf v).registry c = none) :
    w.Allocates v c (.value w.objects.next) (w.newObject c).2 where
  owned := hw.newObject c
  kept := Store.keeps_add _ _
  held hf := Or.inl (field?_newObject hf)
  value := by
    rintro o ho
    cases ho
    exact
      { fresh := w.objects.not_live_next
        live := Store.live_next_add _ _
        cls := classOf_newObject w c
        loose := fun p j hf => w.objects.not_live_next (hw.live (field?_newObject hf))
        bound := fun hr => by
          rw [hnone] at hr
          cases hr }

/-- A new object whose handler could not be made, or not be stored. -/
theorem unbound (h : (w.newObject c).2.Allocates v d e w') (he : ∀ o, e' ≠ .value o) :
    w.Allocates v c e' w' where
  owned := h.owned
  kept := (Store.keeps_add _ _).trans h.kept
  held {o i q} hf := by
    rcases h.held hf with hold | hnew
    · exact Or.inl (field?_newObject hold)
    · exact Or.inr ⟨fun hq => hnew.1 (hq.add _), hnew.2⟩
  value hv := absurd hv (he _)

/-- A new object and the handler made for it. -/
theorem bind {r : Resolution}
    (h : (w.newObject c).2.Allocates v r.handlerClass (.value q) w') (hw : w.Owned)
    (hgrows : (w.newObject c).2.Grows w')
    (hr : w.interceptionOf (w.coreOf v).registry c = some (i, r))
    (hset : w'.setField w.objects.next r.handlerOffset (.object q) = .ok w'') :
    w.Allocates v c (.value w.objects.next) w'' := by
  obtain ⟨hfresh, hlive, hcls, hloose, -⟩ := h.value rfl
  obtain ⟨hself, hother⟩ := field?_setField hset
  have hnext : (w.newObject c).2.objects.Live w.objects.next := Store.live_next_add _ _
  have honly := onlyObjects_setField hset
  have hkept : w.objects.Keeps w'.objects := (Store.keeps_add _ _).trans h.kept
  have hheld : ∀ {p j x}, w'.field? p j = some (.object x) →
      w.field? p j = some (.object x) ∨
        ¬ (w.newObject c).2.objects.Live x ∧ w'.Serves x := fun {p j x} hf =>
    (h.held hf).imp_left field?_newObject
  have hold : ∀ {x}, ¬ (w.newObject c).2.objects.Live x → ¬ w.objects.Live x :=
    fun hnew hx => hnew (hx.add _)
  exact
    { owned := h.owned.setField hlive hloose hset
      kept := fun p hp => by
        refine ⟨(honly.objects p (hkept p hp).1).1, ?_⟩
        rw [objects_setField_of_ne hset hp.ne_next]
        exact (hkept p hp).2
      held := fun {p j x} hf => by
        by_cases hp : p = w.objects.next ∧ j = r.handlerOffset
        · obtain ⟨rfl, rfl⟩ := hp
          rw [hself] at hf
          cases hf
          obtain ⟨-, hres, -⟩ := interceptionOf_eq_some.mp hr
          have hres' := (honly.toExtends 0).grows.resolved (hgrows.resolved hres)
          exact Or.inr ⟨hold hfresh, _, i, r, hres',
            (honly.objects q hlive).2.1.trans hcls⟩
        · rw [hother hp] at hf
          exact (hheld hf).imp_right fun hnew =>
            ⟨hold hnew.1, hnew.2.of_grows (honly.toExtends 0).grows (h.owned.live hf)⟩
      value := by
        rintro o ho
        cases ho
        refine
          { fresh := w.objects.not_live_next
            live := (honly.objects _ (h.kept _ hnext).1).1
            cls := ?_
            loose := fun p j hf => ?_
            bound := fun {i' r'} hr' => ?_ }
        · rw [(honly.objects _ (h.kept _ hnext).1).2.1, classOf, (h.kept _ hnext).2]
          exact classOf_newObject w c
        · by_cases hp : p = w.objects.next ∧ j = r.handlerOffset
          · obtain ⟨rfl, rfl⟩ := hp
            rw [hself] at hf
            cases hf
            exact hfresh hnext
          · rw [hother hp] at hf
            rcases hheld hf with hbefore | hnew
            · exact w.objects.not_live_next (hw.live hbefore)
            · exact hnew.1 hnext
        · rw [hr] at hr'
          cases hr'
          exact ⟨q, hself, hold hfresh, (honly.objects q hlive).2.1.trans hcls⟩ }

end Allocates

theorem Allocates.counted (h : w.Allocates v c e w') : w.Allocates v c e (w'.counted v) where
  owned := h.owned.of_objects rfl
  kept := h.kept
  held hf := h.held hf
  value hv := by
    obtain ⟨hfresh, hlive, hcls, hloose, hbound⟩ := h.value hv
    exact ⟨hfresh, hlive, hcls, hloose, hbound⟩

theorem allocates_allocateWithin (v : VmRef) (fuel : Nat) (w : World β) (c : ClassRef)
    (hw : w.Owned) :
    w.Allocates v c (allocateWithin v fuel w c).1 (allocateWithin v fuel w c).2 := by
  induction fuel generalizing w c with
  | zero => exact .nothing hw fun _ h => by cases h
  | succ fuel ih =>
    by_cases hinit : (w.classes.get c).initialized = true
    · cases hr : w.interceptionOf (w.coreOf v).registry c with
      | none =>
        rw [allocateWithin_alone hinit hr]
        exact (Allocates.alone hw hr).counted
      | some x =>
        obtain ⟨i, r⟩ := x
        have hclass : (w.newObject c).2.interceptionOf ((w.newObject c).2.coreOf v).registry
            ((w.newObject c).2.classOf w.objects.next) = some (i, r) := by
          rw [classOf_newObject]
          exact hr
        have hhandler := ih (w.newObject c).2 r.handlerClass (hw.newObject c)
        have hgrows :=
          ((onlyObjects_allocateWithin v fuel (w.newObject c).2 r.handlerClass).toExtends 0).grows
        rw [allocateWithin, if_pos hinit]
        show w.Allocates v c (Ending.andThen (bindWith (allocateWithin v fuel) (w.newObject c).2
            ((w.newObject c).2.coreOf v).registry w.objects.next) _).1
          (Ending.andThen (bindWith (allocateWithin v fuel) (w.newObject c).2
            ((w.newObject c).2.coreOf v).registry w.objects.next) _).2
        rw [bindWith]
        simp only [hclass]
        generalize allocateWithin v fuel (w.newObject c).2 r.handlerClass = y at hhandler hgrows ⊢
        obtain ⟨e, w'⟩ := y
        cases e with
        | value q =>
          rw [Ending.andThen_value]
          cases hset : w'.setField w.objects.next r.handlerOffset (.object q) with
          | ok w'' => exact (hhandler.bind hw hgrows hr hset).counted
          | error e => exact hhandler.unbound fun _ h => by cases h
        | _ => exact hhandler.unbound fun _ h => by cases h
    · rw [allocateWithin, if_neg hinit]
      exact .nothing hw fun _ h => by cases h

/-- Allocating keeps what is owned, and returns an instance with a handler of its own. -/
theorem Owned.allocates (hw : w.Owned) (v : VmRef) (c : ClassRef) :
    w.Allocates v c (w.allocate v c).1 (w.allocate v c).2 :=
  allocates_allocateWithin v _ w c hw

/-- The object has a handler of the class asked for, and nobody else has it. -/
structure OwnHandler (w : World β) (o : ObjectRef) (r : Resolution) (h : ObjectRef) : Prop where
  field : w.field? o r.handlerOffset = some (.object h)
  cls : w.classOf h = r.handlerClass
  sole : ∀ {p j}, w.field? p j = some (.object h) → p = o ∧ j = r.handlerOffset

theorem live_of_field? {x : Value} (hf : w.field? o i = some x) : w.objects.Live o := by
  by_contra ho
  rw [field?, Store.get_of_not_live ho] at hf
  cases hf

/-- An object that the look-up takes for a handler is held by a field. -/
theorem field?_of_handlerOf {core : Core} (hh : w.handlerOf v core o = some h) :
    ∃ k, w.field? o k = some (.object h) := by
  have held : ∀ {k}, (w.field? o k).bind Value.asObject? = some h →
      ∃ k, w.field? o k = some (.object h) := fun {k} hk => by
    obtain ⟨x, hx, hobject⟩ := Option.bind_eq_some_iff.mp hk
    exact ⟨k, Value.asObject?_eq_some_iff.mp hobject ▸ hx⟩
  rw [World.handlerOf] at hh
  split at hh
  · exact held hh
  · obtain ⟨⟨i, r⟩, -, hfield⟩ := Option.bind_eq_some_iff.mp hh
    exact held hfield

/-- An instance of an intercepted class is returned with one. -/
theorem Allocates.ownHandler {r : Resolution} (ha : w.Allocates v c (.value o) w')
    (hr : w.interceptionOf (w.coreOf v).registry c = some (i, r)) :
    ∃ h, ¬ w.objects.Live h ∧ w'.OwnHandler o r h := by
  obtain ⟨h, hfield, hnew, hcls⟩ := (ha.value rfl).bound hr
  exact ⟨h, hnew, hfield, hcls, fun hf => ha.owned.once hf hfield⟩

/-- It keeps it for good. -/
theorem OwnHandler.of_keeps {r : Resolution} (h : w.OwnHandler o r p) (hw : w.Owned)
    (hw' : w'.Owned) (hk : w.objects.Keeps w'.objects) : w'.OwnHandler o r p := by
  have hfield := (field?_of_keeps hk (live_of_field? h.field) _).trans h.field
  refine ⟨hfield, ?_, fun hf => hw'.once hf hfield⟩
  rw [classOf, (hk p (hw.live h.field)).2]
  exact h.cls

/-- Whatever an object holds is its own, and a handler. -/
structure Staffed (w : World β) : Prop where
  owned : w.Owned
  serves : ∀ {o i h}, w.field? o i = some (.object h) → w.Serves h

theorem Staffed.empty : ({} : World β).Staffed where
  owned := .empty
  serves h := by cases h

theorem Staffed.of_objects (hw : w.Staffed) (hg : w.Grows w') (ho : w'.objects = w.objects) :
    w'.Staffed where
  owned := hw.owned.of_objects ho
  serves hf := by
    rw [field?, ho] at hf
    exact (hw.serves hf).of_grows hg (hw.owned.live hf)

theorem Staffed.allocate (hw : w.Staffed) (v : VmRef) (c : ClassRef) :
    (w.allocate v c).2.Staffed where
  owned := (hw.owned.allocates v c).owned
  serves hf := by
    rcases (hw.owned.allocates v c).held hf with hold | hnew
    · exact (hw.serves hold).of_grows (extends_allocate 0 w v c).grows (hw.owned.live hold)
    · exact hnew.2

theorem objects_define {d : ClassDecl β} (hd : w.define v d = .ok (c, w')) :
    w'.objects = w.objects := by
  obtain ⟨rfl, s, -, rfl⟩ := define_enrolls hd
  exact Sound.objects_enroll _ v _

theorem objects_newVmAround (w : World β) (options : VmOptions) (core : Core) :
    (w.newVmAround options core).2.objects = w.objects := by
  rw [newVmAround_eq]
  exact (Sound.objects_enroll _ _ _).trans (Sound.objects_enroll _ _ _)

theorem objects_openWindow (w : World β) (th : Thread) (v : VmRef) (core : Core) (o : ObjectRef)
    (m : CellRef) : (w.openWindow th v core o m).2.1.objects = w.objects :=
  (shifts_openWindow w th v core o m).objects

end World

/-! ### Every moment -/

/-- The ordinary operations but for writing a field. -/
def Op.KeepsFields : Op β → Bool
  | .define .. | .allocate .. | .callVirtual .. | .callSlot .. | .callDirect .. | .callMethod ..
  | .execute .. => true
  | _ => false

theorem Op.KeepsFields.isOrdinary {op : Op β} (h : op.KeepsFields = true) :
    op.IsOrdinary = true := by
  cases op <;> first | rfl | cases h

/-- Where no field is written by hand, objects stay as they are and what they hold is theirs. -/
theorem upheld_owned : Upheld (β := β) (fun op => op.KeepsFields = true) World.Owned
    (fun w w' => w.objects.Keeps w'.objects) where
  ordinary := Op.KeepsFields.isOrdinary
  start := .empty
  refl := .refl _
  trans _ _ _ _ h h' := h.trans h'
  registry rows _ h := ⟨h.of_objects rfl, .refl _⟩
  machine {w} options core _ h := by
    have hsame := World.objects_newVmAround w options core
    exact ⟨h.of_objects hsame, hsame ▸ .refl _⟩
  define _ h hd := by
    have hsame := World.objects_define hd
    exact ⟨h.of_objects hsame, hsame ▸ .refl _⟩
  objects _ h hstep := by
    cases hstep with
    | allocate _ => exact ⟨(h.allocates _ _).owned, (h.allocates _ _).kept⟩
    | setField ha _ => cases ha
  opening {w th v this m _} _ h _ _ := by
    have hsame := World.objects_openWindow w th v (w.coreOf v) this m
    exact ⟨h.of_objects hsame, hsame ▸ .refl _⟩
  closing {w x th v this m _ u} _ _ _ _ _ h _ _ := by
    have hsame := (World.shifts_closeWindow x u
      (w.openWindow th v (w.coreOf v) this m).1).objects
    exact ⟨h.of_objects hsame, hsame ▸ .refl _⟩

/-- And what they hold are handlers. -/
theorem upheld_staffed : Upheld (β := β) (fun op => op.KeepsFields = true) World.Staffed
    (fun _ _ => True) where
  ordinary := Op.KeepsFields.isOrdinary
  start := .empty
  refl := trivial
  trans _ _ _ _ _ _ := trivial
  registry {w} rows _ h :=
    ⟨h.of_objects (World.extends_newRegistry 0 w rows).grows rfl, trivial⟩
  machine {w} options core _ h :=
    ⟨h.of_objects (World.extends_newVmAround w options core).grows
      (World.objects_newVmAround w options core), trivial⟩
  define _ h hd :=
    ⟨h.of_objects (World.extends_define hd).grows (World.objects_define hd), trivial⟩
  objects _ h hstep := by
    cases hstep with
    | allocate _ => exact ⟨h.allocate _ _, trivial⟩
    | setField ha _ => cases ha
  opening {w th v this m _} _ h _ _ := by
    have hshifts := World.shifts_openWindow w th v (w.coreOf v) this m
    exact ⟨h.of_objects hshifts.grows hshifts.objects, trivial⟩
  closing {w x th v this m _ u} _ _ _ _ _ h _ _ := by
    have hshifts := World.shifts_closeWindow x u (w.openWindow th v (w.coreOf v) this m).1
    exact ⟨h.of_objects hshifts.grows hshifts.objects, trivial⟩

end Interception
