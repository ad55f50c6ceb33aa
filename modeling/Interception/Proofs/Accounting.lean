/-
What an allocation adds up to.

A handler class was published before the class it handles was: patching looks it up on the
machine, and a class is not known there before it was patched.  So along the chain of handler
classes the classes get older and older, the chain ends, and there is always enough fuel.
Every class of the chain is initialized and has room for its handler, so nothing on the way
fails.  What is left is to count: one object for each class of the chain, in order, each
holding the next, and nothing else but the machine's own count.

The induction follows the chain.  The world it starts from is not the one the allocation was
asked in, since objects are made on the way, but rows and classes are the same in both.
-/
import Interception.Proofs.Nearest
import Interception.Proofs.Ownership

namespace Interception

variable {β H : Type}

namespace Store

variable {k : Kind} {α : Type}

/-- One change after the other. -/
theorem modify_modify (s : Store k α) (r : Ref k) (f f' : α → α) :
    (s.modify r f).modify r f' = s.modify r (f' ∘ f) := by
  simp only [modify, Store.mk.injEq]
  refine Array.ext' ?_
  rw [Array.toList_modify, Array.toList_modify, Array.toList_modify, List.modify_modify_eq]

end Store

namespace World

variable {w w' : World β} {v : VmRef} {c : ClassRef} {g : RegistryRef} {i : Nat} {r : Resolution}
  {o : ObjectRef}

/-! ### Handler classes are older -/

theorem registered_of_findClass {name : String} (hc : w.findClass v name = some c) :
    w.Registered v c := by
  rw [findClass, ClassRegistry.byName?, Option.bind_eq_some_iff] at hc
  obtain ⟨n, -, hn⟩ := hc
  exact Array.mem_of_getElem? hn

/-- Every handler class was there before the class that it is for. -/
structure HandlersFirst (w : World β) : Prop where
  older : ∀ {g i r}, w.Resolves g i r → r.handlerClass.index < r.cls.index

namespace HandlersFirst

theorem empty : ({} : World β).HandlersFirst where
  older hr := absurd hr.live (Nat.not_lt_zero _)

theorem of_resolves (h : w.HandlersFirst)
    (hres : ∀ {g i r}, w'.Resolves g i r → w.Resolves g i r) : w'.HandlersFirst where
  older hr := h.older (hres hr)

theorem of_onlyObjects (h : w.HandlersFirst) (ho : w.OnlyObjects w') : w'.HandlersFirst :=
  h.of_resolves fun hr => by
    rw [Resolves, ho.entry] at hr
    exact hr

/-- A class is patched before the machine knows it. -/
theorem enroll (h : w.HandlersFirst) (hafter : ∀ a, w.Registered v a → a.index < c.index) :
    (w.enroll v c).HandlersFirst := by
  refine ⟨fun hr => ?_⟩
  rcases resolves_initializeClass (resolves_enroll.mp hr) with hold | hfills
  · exact h.older hold
  · rw [hfills.cls]
    exact hafter _ (registered_of_findClass hfills.handler)

theorem define (h : w.HandlersFirst) (hlive : ∀ {a}, w.Registered v a → w.classes.Live a)
    {d : ClassDecl β} (hd : w.define v d = .ok (c, w')) : w'.HandlersFirst := by
  obtain ⟨rfl, s, -, rfl⟩ := define_enrolls hd
  have hlinked : (w.link d (w.vms.get v).classes.next (some s)).2.HandlersFirst :=
    h.of_resolves fun hr => hr
  exact hlinked.enroll fun a ha => hlive ha

theorem newVmAround (h : w.HandlersFirst) (options : VmOptions) (core : Core) :
    (w.newVmAround options core).2.HandlersFirst := by
  have hnone : ∀ a, ¬ (w.bareMachine options core).Registered w.vms.next a := fun a ha => by
    rw [Registered, vmClasses_bareMachine, Store.get_of_not_live w.vms.not_live_next] at ha
    exact absurd ha (Array.not_mem_empty a)
  have hlive : (w.bareMachine options core).vms.Live w.vms.next := Store.live_next_add _ _
  have hbare : (w.bareMachine options core).HandlersFirst :=
    h.of_resolves resolves_bareMachine.mp
  have hroot : ((w.bareMachine options core).enroll w.vms.next w.classes.next).HandlersFirst :=
    hbare.enroll fun a ha => absurd ha (hnone a)
  rw [newVmAround_eq]
  refine hroot.enroll fun a ha => ?_
  rcases (registered_enroll hlive).mp ha with hbefore | ⟨-, rfl⟩
  · exact absurd hbefore (hnone a)
  · exact Nat.lt_succ_self w.classes.size

end HandlersFirst

/-! ### The chain of handler classes -/

/-- The nearest class of a lineage that has a row of its own. -/
def rowHolder? (w : World β) (g : RegistryRef) (c : ClassRef) : Option ClassRef :=
  (w.lineage c).find? fun a => (w.ownEntry g a).isSome

/-- What the row of that class settled, if it was resolved for this very class. -/
def assigned? (w : World β) (g : RegistryRef) (c : ClassRef) : Option Resolution :=
  (w.rowHolder? g c).bind fun a => (w.ownEntry g a).bind fun i =>
    (w.entry g i).resolution.filter fun r => r.cls == a

theorem assigned?_eq_some : w.assigned? g c = some r ↔ ∃ a i, w.rowHolder? g c = some a ∧
    w.ownEntry g a = some i ∧ w.Resolves g i r ∧ r.cls = a := by
  simp only [assigned?, Option.bind_eq_some_iff, Option.filter_eq_some_iff, beq_iff_eq, Resolves]
  constructor
  · rintro ⟨a, ha, i, hi, hr⟩
    exact ⟨a, i, ha, hi, hr⟩
  · rintro ⟨a, i, ha, hi, hr⟩
    exact ⟨a, ha, i, hi, hr⟩

/-- The entry found by the nearest name speaks for a class if and only if it was resolved for
the class that has this name. -/
theorem Sound.assigned? (hw : w.Sound) (ht : w.Titled) (g : RegistryRef) (c : ClassRef) :
    w.assigned? g c = (w.interceptionOf g c).map Prod.snd := by
  refine Option.ext fun r => ?_
  rw [assigned?_eq_some]
  constructor
  · rintro ⟨a, i, ha, hi, hr, rfl⟩
    obtain ⟨-, nearer, farther, hsplit, hnone⟩ := List.find?_eq_some_iff_append.mp ha
    have hnearest : w.nearestEntry g c = some i := by
      refine List.findSome?_eq_some_iff.mpr ⟨nearer, r.cls, farther, hsplit, hi, fun b hb => ?_⟩
      simpa using hnone b hb
    have hmem : r.cls ∈ w.lineage c := List.mem_of_find?_eq_some ha
    rw [interceptionOf_eq_some.mpr ⟨hnearest, hr, hmem⟩]
    rfl
  · intro h
    obtain ⟨⟨i, r'⟩, hi, rfl⟩ := Option.map_eq_some_iff.mp h
    obtain ⟨hnearest, hr, hmem⟩ := interceptionOf_eq_some.mp hi
    obtain ⟨nearer, a, farther, hsplit, ha, hnone⟩ := List.findSome?_eq_some_iff.mp hnearest
    have hbelow := hw.nearest ht hi hr hmem
    have hmema : a ∈ w.lineage c := by
      rw [hsplit]
      exact List.mem_append_right _ List.mem_cons_self
    -- Two classes of one lineage with the same row have the same name, so they are one class.
    have hname : w.className a = w.className r'.cls :=
      (hw.orderly.row_className ha).symm.trans (hw.orderly.row_className (hw.filled.own hr))
    have hsame : r'.cls = a := by
      rcases hw.lineages.comparable hmema hmem with heq | hup | hup
      · exact heq.symm
      · exact absurd hname (ht.apart hup)
      · exact absurd hname.symm (ht.apart hup)
    refine ⟨a, i, List.find?_eq_some_iff_append.mpr ⟨by rw [ha]; rfl, nearer, farther, hsplit,
      fun b hb => by rw [hnone b hb]; rfl⟩, ha, hr, hsame⟩

/-- The classes that an allocation instantiates: the class asked for, and then always the
handler class assigned to the one before, as long as there is one. -/
inductive HandlerChain (w : World β) (g : RegistryRef) : ClassRef → List ClassRef → Prop
  | last {c : ClassRef} (hnone : w.assigned? g c = none) : HandlerChain w g c [c]
  | next {c : ClassRef} {r : Resolution} {cs : List ClassRef} (hr : w.assigned? g c = some r)
      (hrest : HandlerChain w g r.handlerClass cs) : HandlerChain w g c (c :: cs)

namespace HandlerChain

variable {cs cs' : List ClassRef}

/-- There is one chain. -/
theorem unique (h : w.HandlerChain g c cs) (h' : w.HandlerChain g c cs') : cs' = cs := by
  induction h generalizing cs' with
  | last hnone =>
    cases h' with
    | last _ => rfl
    | next hr _ =>
      rw [hnone] at hr
      cases hr
  | next hr _ ih =>
    cases h' with
    | last hnone =>
      rw [hnone] at hr
      cases hr
    | next hr' hrest' =>
      rw [hr] at hr'
      cases hr'
      rw [ih hrest']

/-- Classes get older along the chain, so it is no longer than the classes are many. -/
theorem exists_of_live (hw : w.Sound) (hf : w.HandlersFirst) (g : RegistryRef)
    {c : ClassRef} (hc : w.classes.Live c) :
    ∃ cs, w.HandlerChain g c cs ∧ cs.length ≤ c.index + 1 := by
  induction hn : c.index using Nat.strongRecOn generalizing c with
  | ind n ih =>
    cases hr : w.assigned? g c with
    | none => exact ⟨[c], .last hr, Nat.le_add_left 1 n⟩
    | some r =>
      obtain ⟨a, i, ha, -, hres, hcls⟩ := assigned?_eq_some.mp hr
      have hmem : r.cls ∈ w.lineage c := by
        rw [hcls]
        exact List.mem_of_find?_eq_some ha
      have hle : r.cls.index ≤ c.index := by
        rcases List.mem_cons.mp hmem with heq | hup
        · exact Nat.le_of_eq (congrArg Ref.index heq)
        · exact Nat.le_of_lt (hw.lineages.lt hup)
      have hlt : r.handlerClass.index < n := by
        rw [← hn]
        exact Nat.lt_of_lt_of_le (hf.older hres) hle
      obtain ⟨u, hu, -⟩ := hw.filled.handler hres
      obtain ⟨cs, hcs, hlength⟩ := ih _ hlt (hw.homes.live hu) rfl
      refine ⟨c :: cs, .next hr hcs, ?_⟩
      rw [List.length_cons]
      omega

end HandlerChain

/-! ### What is made -/

/-- The object that will be made so many objects from now. -/
def upcoming (w : World β) (n : Nat) : ObjectRef := ⟨w.objects.size + n⟩

/-- An instance as an allocation leaves it: every field is null, but for the one that the
class's row keeps handlers in, which holds the handler. -/
structure Furnished (w : World β) (g : RegistryRef) (c : ClassRef) (handler : ObjectRef)
    (x : Object) : Prop where
  cls : x.cls = c
  count : x.fields.length = (w.classes.get c).fields.length
  handler : ∀ {r}, w.assigned? g c = some r → x.fields[r.handlerOffset]? = some (.object handler)
  null : ∀ {k}, k < x.fields.length → (∀ r, w.assigned? g c = some r → r.handlerOffset ≠ k) →
    x.fields[k]? = some .null

/-- There is one new instance of each class listed, in this order, each with the next one as its
handler; the machine has counted them, and nothing else has changed. -/
structure Populates (w : World β) (v : VmRef) (cs : List ClassRef) (w' : World β) : Prop where
  rest : w' = { w with
    objects := w'.objects
    vms := w.vms.modify v fun k => { k with allocations := k.allocations + cs.length } }
  size : w'.objects.size = w.objects.size + cs.length
  kept : w.objects.Keeps w'.objects
  made : ∀ {n c}, cs[n]? = some c →
    w.Furnished (w.coreOf v).registry c (w.upcoming (n + 1)) (w'.objects.get (w.upcoming n))

theorem Populates.allocations {cs : List ClassRef} (h : w.Populates v cs w')
    (hv : w.vms.Live v) :
    (w'.vms.get v).allocations = (w.vms.get v).allocations + cs.length := by
  rw [h.rest]
  exact congrArg Vm.allocations (Store.get_modify_self hv _)

theorem size_newObject (w : World β) (c : ClassRef) :
    (w.newObject c).2.objects.size = w.objects.size + 1 := Store.size_add _ _

/-- An instance without a handler. -/
theorem Furnished.newObject (hnone : w.assigned? g c = none) (handler : ObjectRef) :
    w.Furnished g c handler ((w.newObject c).2.objects.get (w.upcoming 0)) := by
  have hget : (w.newObject c).2.objects.get (w.upcoming 0) =
      ⟨c, List.replicate (w.classes.get c).fields.length .null⟩ := get_newObject w c
  rw [hget]
  refine ⟨rfl, List.length_replicate, fun hr => ?_, fun hk _ => ?_⟩
  · rw [hnone] at hr
    cases hr
  · rw [List.length_replicate] at hk
    exact List.getElem?_replicate_of_lt hk

/-- An instance whose handler was stored. -/
theorem Furnished.putField (hr : w.assigned? g c = some r)
    (hoffset : r.handlerOffset < (w.classes.get c).fields.length) (handler : ObjectRef) :
    w.Furnished g c handler ⟨c, (List.replicate (w.classes.get c).fields.length Value.null).set
      r.handlerOffset (.object handler)⟩ := by
  refine ⟨rfl, by simp, fun hr' => ?_, fun {k} hk hne => ?_⟩
  · rw [hr] at hr'
    cases hr'
    exact List.getElem?_set_self (by rwa [List.length_replicate])
  · rw [List.length_set, List.length_replicate] at hk
    rw [List.getElem?_set_ne (hne r hr)]
    exact List.getElem?_replicate_of_lt hk

/-- One instance alone. -/
theorem Populates.alone (hnone : w.assigned? (w.coreOf v).registry c = none) :
    w.Populates v [c] ((w.newObject c).2.counted v) where
  rest := rfl
  size := Store.size_add _ _
  kept := Store.keeps_add _ _
  made {n d} hd := by
    obtain ⟨rfl, rfl⟩ : n = 0 ∧ c = d := by
      cases n with
      | zero => exact ⟨rfl, Option.some.inj hd⟩
      | succ n => cases hd
    exact Furnished.newObject hnone _

/-- One instance more, in front of the handlers that were made for it. -/
theorem Populates.cons {cs : List ClassRef} (h : (w.newObject c).2.Populates v cs w')
    (hr : w.assigned? (w.coreOf v).registry c = some r)
    (hoffset : r.handlerOffset < (w.classes.get c).fields.length) :
    w.Populates v (c :: cs)
      ((w'.putField w.objects.next r.handlerOffset (.object (w.upcoming 1))).counted v) := by
  have hnext : (w.newObject c).2.objects.Live w.objects.next := Store.live_next_add _ _
  obtain ⟨hlive, hget⟩ := h.kept _ hnext
  rw [get_newObject] at hget
  have hvms : w'.vms =
      w.vms.modify v fun k => { k with allocations := k.allocations + cs.length } :=
    congrArg World.vms h.rest
  have hother : ∀ q, q ≠ w.objects.next →
      ((w'.putField w.objects.next r.handlerOffset (.object (w.upcoming 1))).counted v).objects.get
        q = w'.objects.get q := fun q hq => get_putField_of_ne hq _ _
  exact
    { rest := by
        rw [counted, modifyVm, World.putField]
        conv_lhs => rw [h.rest]
        simp only [Store.modify_modify]
        rfl
      size := by
        refine (Store.size_modify ..).trans ?_
        rw [h.size, size_newObject, List.length_cons]
        omega
      kept := fun q hq => by
        refine ⟨(Store.live_modify ..).mpr (h.kept q (hq.add _)).1, ?_⟩
        rw [hother q hq.ne_next, (h.kept q (hq.add _)).2]
        exact Store.get_add_of_live hq _
      made := by
        intro n d hd
        cases n with
        | zero =>
          obtain rfl : c = d := Option.some.inj hd
          have hself := get_putField_self (w := w') hlive r.handlerOffset (.object (w.upcoming 1))
          rw [hget] at hself
          have hself' : ((w'.putField w.objects.next r.handlerOffset
              (.object (w.upcoming 1))).counted v).objects.get (w.upcoming 0) = _ := hself
          rw [hself']
          exact Furnished.putField hr hoffset _
        | succ n =>
          have hshift : ∀ m, (w.newObject c).2.upcoming m = w.upcoming (m + 1) := fun m => by
            rw [upcoming, upcoming, size_newObject, Nat.add_right_comm, Nat.add_assoc]
          have hne : w.upcoming (n + 1) ≠ w.objects.next := fun he =>
            absurd (congrArg Ref.index he) (Nat.ne_of_gt (Nat.lt_add_of_pos_right n.succ_pos))
          have hmade := h.made (n := n) hd
          rw [hshift, hshift] at hmade
          rw [hother _ hne]
          exact ⟨hmade.cls, hmade.count, hmade.handler, hmade.null⟩ }

/-! ### Allocating -/

/-- Allocating is making an object and running the hook on it. -/
theorem allocateWithin_succ (fuel : Nat) (hinit : (w.classes.get c).initialized = true) :
    allocateWithin v (fuel + 1) w c =
      Ending.andThen (bindWith (allocateWithin v fuel) (w.newObject c).2 (w.coreOf v).registry
        w.objects.next) fun _ x => (.value w.objects.next, x.counted v) := by
  rw [allocateWithin, if_pos hinit]
  rfl

/-- The hook does nothing for an object that no row speaks for. -/
theorem bindWith_none {allocate : World β → ClassRef → Ending ObjectRef × World β}
    (hnone : w.interceptionOf g (w.classOf o) = none) :
    bindWith allocate w g o = (.value none, w) := by
  rw [bindWith, hnone]

/-- For any other it stores what it allocates. -/
theorem bindWith_some {allocate : World β → ClassRef → Ending ObjectRef × World β} {h : ObjectRef}
    (hr : w.interceptionOf g (w.classOf o) = some (i, r))
    (ha : allocate w r.handlerClass = (.value h, w'))
    (hoffset : r.handlerOffset < (w'.objects.get o).fields.length) :
    bindWith allocate w g o = (.value (some h), w'.putField o r.handlerOffset (.object h)) := by
  rw [bindWith, hr]
  simp only [ha, Ending.andThen_value, setField_eq hoffset]

section Chain

variable {cs : List ClassRef} {x : World β}

/-- The hook makes the handlers of the chain, with any fuel that is enough, and answers the
first of them. -/
theorem HandlerChain.binds (h : w.HandlerChain (w.coreOf v).registry c cs) (hw : w.Sound)
    (ht : w.Titled) (hc : w.classes.Live c) (hx : w.OnlyObjects x) :
    ∃ x', x.Populates v cs (x'.counted v) ∧ ∀ fuel, cs.length ≤ fuel + 1 →
      bindWith (allocateWithin v fuel) (x.newObject c).2 (x.coreOf v).registry x.objects.next =
        (.value ((x.assigned? (x.coreOf v).registry c).map fun _ => x.upcoming 1), x') := by
  have hcore : x.coreOf v = w.coreOf v := (hx.alike v).core
  induction h generalizing x with
  | @last c hnone =>
    have hassigned : x.assigned? (x.coreOf v).registry c = none := by
      rw [hcore, hx.rest]
      exact hnone
    have hrow : x.interceptionOf (x.coreOf v).registry c = none := by
      rw [hcore, hx.interceptionOf]
      exact Option.map_eq_none_iff.mp ((hw.assigned? ht _ c).symm.trans hnone)
    refine ⟨(x.newObject c).2, .alone hassigned, fun fuel _ => ?_⟩
    rw [bindWith_none (by rw [classOf_newObject]; exact hrow), hassigned]
    rfl
  | @next c r cs hr hrest ih =>
    have hassigned : x.assigned? (x.coreOf v).registry c = some r := by
      rw [hcore, hx.rest]
      exact hr
    obtain ⟨⟨i, r'⟩, hi, hr'⟩ := Option.map_eq_some_iff.mp ((hw.assigned? ht _ c).symm.trans hr)
    obtain rfl : r' = r := hr'
    obtain ⟨-, hres, hmem⟩ := interceptionOf_eq_some.mp hi
    have hrow : x.interceptionOf (x.coreOf v).registry c = some (i, r') := by
      rw [hcore, hx.interceptionOf]
      exact hi
    obtain ⟨u, hu, -⟩ := hw.filled.handler hres
    have hoffset : r'.handlerOffset < (w.classes.get c).fields.length :=
      (List.getElem?_eq_some_iff.mp (hw.handlerField hres hmem)).1
    have hnew : w.OnlyObjects (x.newObject c).2 :=
      hx.trans (onlyObjects_newObject (by rw [hx.classes]; exact hc))
    obtain ⟨y, hy, hbind⟩ := ih (hw.homes.live hu) hnew ((hnew.alike v).core)
    have hinit : ((x.newObject c).2.classes.get r'.handlerClass).initialized = true := by
      rw [hnew.classes]
      exact hw.homes.ready hu
    have hallocate : ∀ fuel, cs.length ≤ fuel →
        allocateWithin v fuel (x.newObject c).2 r'.handlerClass =
          (.value (x.upcoming 1), y.counted v) := fun fuel hfuel => by
      obtain ⟨fuel, rfl⟩ : ∃ n, fuel = n + 1 := by
        cases hrest <;> exact ⟨fuel - 1, by rw [List.length_cons] at hfuel; omega⟩
      rw [allocateWithin_succ fuel hinit, hbind fuel hfuel]
      exact congrArg (·, y.counted v) (congrArg Ending.value
        (Ref.ext_index (Store.size_add x.objects _)))
    have hlength : r'.handlerOffset < ((y.counted v).objects.get x.objects.next).fields.length := by
      rw [(hy.kept _ (Store.live_next_add _ _)).2, get_newObject, List.length_replicate, hx.classes]
      exact hoffset
    refine ⟨_, hy.cons hassigned (by rw [hx.classes]; exact hoffset), fun fuel hfuel => ?_⟩
    rw [hassigned]
    refine bindWith_some (i := i) ?_ (hallocate fuel (Nat.le_of_succ_le_succ hfuel))
      hlength
    rw [classOf_newObject]
    exact hrow

/-- So an allocation makes the objects of the chain, and returns the first, for which the hook
has answered the second if there is one. -/
theorem HandlerChain.allocates (h : w.HandlerChain (w.coreOf v).registry c cs) (hw : w.Sound)
    (ht : w.Titled) (hc : w.classes.Live c) (hlength : cs.length ≤ c.index + 1) :
    ∃ x, w.Populates v cs (x.counted v) ∧
      (w.newObject c).2.bind v (w.coreOf v) w.objects.next =
        (.value ((w.assigned? (w.coreOf v).registry c).map fun _ => w.upcoming 1), x) ∧
      w.allocate v c = (.value (w.upcoming 0), x.counted v) := by
  obtain ⟨u, hu⟩ := hw.homed c hc
  have hfuel : cs.length ≤ w.classes.size + 1 :=
    Nat.le_trans hlength (Nat.succ_le_succ (Nat.le_of_lt hc))
  obtain ⟨x, hx, hbind⟩ := h.binds hw ht hc (.refl w)
  refine ⟨x, hx, hbind _ (Nat.le_succ_of_le hfuel), ?_⟩
  rw [World.allocate, allocateWithin_succ _ (hw.homes.ready hu), hbind _ hfuel]
  rfl

end Chain

end World

/-! ### Every moment -/

/-- Ordinary runs keep handler classes older than what they handle. -/
theorem upheld_handlersFirst : Upheld (β := β) (fun op => op.IsOrdinary = true)
    World.HandlersFirst (fun _ _ => True) where
  ordinary h := h
  start := .empty
  refl := trivial
  trans _ _ _ _ _ _ := trivial
  registry _ _ h := ⟨h.of_resolves World.resolves_newRegistry, trivial⟩
  machine options core _ h := ⟨h.newVmAround options core, trivial⟩
  define hw h hd := ⟨h.define hw.homes.live hd, trivial⟩
  objects _ h hstep := ⟨h.of_onlyObjects hstep.onlyObjects, trivial⟩
  opening {w th v this m _} _ h _ _ :=
    ⟨h.of_resolves (World.shifts_openWindow w th v (w.coreOf v) this m).resolves.mp, trivial⟩
  closing {_ x _ _ _ _ _ u} _ _ _ _ _ h _ _ :=
    ⟨h.of_resolves (World.shifts_closeWindow x u _).resolves.mp, trivial⟩

/-- At every moment of a run of ordinary bodies, allocating an instance of a published class ends
well.  It makes one object for each class of the chain of handler classes, in this order, each
the handler of the one before, the machine has counted them, and nothing else has changed. -/
theorem Reached.accounts {host : Host β H} {s : State β (Logged β H)}
    (hb : ∀ b v this args, (host.body b v this args).Uses fun op => op.IsOrdinary = true)
    (hs : Reached host (fun op => op.IsOrdinary = true) s) {w : World β} {th : Thread}
    (hat : s.trail.At w th) {u v : VmRef} {c : ClassRef} (hv : w.vms.Live v)
    (hc : w.Registered u c) :
    ∃ cs w', w.HandlerChain (w.coreOf v).registry c cs ∧
      (∀ cs', w.HandlerChain (w.coreOf v).registry c cs' → cs' = cs) ∧
      w.Populates v cs w' ∧
      (w'.vms.get v).allocations = (w.vms.get v).allocations + cs.length ∧
      ∀ (exec : Executor β (Logged β H)) (h : Logged β H),
        (Op.allocate v c).run host.logged exec ⟨w, th, h⟩ =
          (.value (w.upcoming 0), ⟨w', th, h⟩) := by
  obtain ⟨hw, htitled⟩ := Reached.titled hb hs hat
  obtain ⟨-, hfirst⟩ := upheld_handlersFirst.everywhere hb hs hat
  have hlive : w.classes.Live c := hw.homes.live hc
  obtain ⟨cs, hcs, hlength⟩ :=
    World.HandlerChain.exists_of_live hw hfirst (w.coreOf v).registry hlive
  obtain ⟨x, hx, -, hallocate⟩ := hcs.allocates hw htitled hlive hlength
  exact ⟨cs, _, hcs, fun _ => hcs.unique, hx, hx.allocations hv, fun _ h =>
    congrArg (fun x : Ending ObjectRef × World β => (x.1, (⟨x.2, th, h⟩ : State β (Logged β H))))
      hallocate⟩

/-! ### The demonstration -/

namespace Demo

/-- The name of a class that handles the handlers. -/
def auditorName : String := "App.Auditor"

/-- Instances of the handler class have handlers too. -/
def auditedDecl : ClassDecl Body :=
  { handlerDecl with fields := [⟨handlerFieldName, handlerFieldType⟩] }

/-- Define the three classes, the oldest handlers first, and allocate an activity. -/
def auditing (v : VmRef) : Program Body Tally Value := do
  let _ ← Program.perform (.define v { name := auditorName })
  let _ ← Program.perform (.define v auditedDecl)
  let c ← Program.perform (.define v activityDecl)
  let o ← Program.perform (.allocate v c)
  return .object o

theorem uses_auditing {allowed : Op Body → Prop} (hdefine : ∀ {v d}, allowed (.define v d))
    (hallocate : ∀ {v c}, allowed (.allocate v c)) (v : VmRef) : (auditing v).Uses allowed := by
  refine .bind (.perform hdefine) fun _ => .bind (.perform hdefine) fun _ => ?_
  exact .bind (.perform hdefine) fun _ => .bind (.perform hallocate) fun _ => trivial

/-- Handlers are intercepted as activities are. -/
def auditedRows : List Row :=
  [⟨activityName, [methodName], handlerName⟩, ⟨handlerName, [handlerMethod], auditorName⟩]

/-- The state after that. -/
def audited : State Body (Logged Body Tally) :=
  ((auditing ⟨0⟩).lift.start host.logged
    ⟨(World.newVm {} { rows := auditedRows, maxDepth }).2, {}, ({}, [])⟩).2

theorem reached_audited {allowed : Op Body → Prop} (hdefine : ∀ {v d}, allowed (.define v d))
    (hallocate : ∀ {v c}, allowed (.allocate v c)) : Reached host allowed audited := by
  have hmachine : Reached host allowed _ :=
    .newVm ({} : Tally) { rows := auditedRows, maxDepth }
  exact hmachine.run (auditing ⟨0⟩) (uses_auditing hdefine hallocate ⟨0⟩)

theorem resolved_audited : audited.world.assigned? ⟨0⟩ ⟨4⟩ = some ⟨⟨4⟩, ⟨3⟩, 0, ⟨6⟩, ⟨5⟩⟩ ∧
    audited.world.assigned? ⟨0⟩ ⟨3⟩ = some ⟨⟨3⟩, ⟨2⟩, 0, ⟨4⟩, ⟨3⟩⟩ ∧
    audited.world.assigned? ⟨0⟩ ⟨2⟩ = none := by
  decide +kernel

/-- One more activity is made with its handler and the handler's handler, six objects in all. -/
theorem accounted_audited : ∃ w', audited.world.Populates ⟨0⟩ [⟨4⟩, ⟨3⟩, ⟨2⟩] w' ∧
    (w'.vms.get ⟨0⟩).allocations = 6 ∧
    ∀ exec h, (Op.allocate ⟨0⟩ ⟨4⟩ : Op Body).run host.logged exec ⟨audited.world, {}, h⟩ =
      (.value ⟨3⟩, ⟨w', {}, h⟩) := by
  obtain ⟨hactivity, hhandler, hauditor⟩ := resolved_audited
  have hcore : (audited.world.coreOf ⟨0⟩).registry = ⟨0⟩ := by decide +kernel
  have hthread : audited.thread = {} := by decide +kernel
  have hmem : ⟨4⟩ ∈ (audited.world.vms.get ⟨0⟩).classes.classes := by decide +kernel
  obtain ⟨cs, w', -, hsole, hw', hcount, hrun⟩ := Reached.accounts uses_body
    (reached_audited rfl rfl)
    (w := audited.world) (Or.inl ⟨rfl, hthread⟩) (v := ⟨0⟩) (by decide +kernel) hmem
  rw [hcore] at hsole
  obtain rfl := hsole _ (.next hactivity (.next hhandler (.last hauditor)))
  exact ⟨w', hw', hcount.trans (by decide +kernel), hrun⟩

end Demo

end Interception
