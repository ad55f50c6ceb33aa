/-
Binding, handler and window agree.

Three places ask on their own whether a class is intercepted: the hook that binds a handler to a
new instance, the look-up of an instance's handler, and the opening of a window.  They look at
different things.  The hook and the window go by the nearest row and by whom it was resolved
for; the look-up reads a field as well, and for an instance of a direct subclass of the proxy
base it does not look at rows at all, but reads the field of the base.

The hook answers what the class's nearest row assigns.  The look-up finds the same, since the
one field of the proxy base is where a row keeps handlers as well, for every class directly
below the base.  Only the window is different for those classes, and there it never opens.
-/
import Mathlib.Data.List.Pairwise
import Interception.Proofs.Accounting
import Interception.Proofs.Loading

namespace Interception

variable {β H : Type}

namespace World

variable {w w' x : World β} {v : VmRef} {c d : ClassRef} {g : RegistryRef} {i : Nat}
  {r : Resolution} {o h : ObjectRef} {cs : List ClassRef}

/-! ### The proxy base -/

/-- The proxy base of a machine has one field, which is for a handler, and declares no method. -/
structure ProxyBase (w : World β) (v : VmRef) : Prop extends w.Methodless v where
  fields : (w.classes.get (w.vms.get v).proxy).fields = [⟨handlerFieldName, handlerFieldType⟩]
  offset : (w.vms.get v).proxyOffset = 0

theorem ProxyBase.of_grows (h : w.ProxyBase v) (hg : w.Grows w') : w'.ProxyBase v where
  toMethodless := h.toMethodless.of_grows hg
  fields := by
    have hlive := h.live (w.mem_lineage_self (w.vms.get v).proxy)
    rw [(hg.vms v h.machine).2.proxy, (hg.classes _ hlive).2.fields]
    exact h.fields
  offset := (hg.vms v h.machine).2.proxyOffset.trans h.offset

/-- A machine is set up with such a base. -/
theorem proxyBase_bareMachine (w : World β) (options : VmOptions) (core : Core) :
    (w.bareMachine options core).ProxyBase w.vms.next := by
  have hproxy := get_link_next w.rootLinked
    { name := proxyClassName, fields := [⟨handlerFieldName, handlerFieldType⟩] } 1
    (some w.classes.next)
  have hroot := get_link_next w { name := rootClassName } 0 none
  rw [next_rootLinked] at hproxy
  have hfields : ((w.bareMachine options core).classes.get ⟨w.classes.size + 1⟩).fields =
      [⟨handlerFieldName, handlerFieldType⟩] := by
    rw [classes_bareMachine, hproxy.fields]
    show (w.rootLinked.classes.get w.classes.next).fields ++ _ = _
    rw [show (w.rootLinked.classes.get w.classes.next).fields = [] from hroot.fields]
    rfl
  have hvm := get_bareMachine w options core
  obtain ⟨-, hancestors, -, -⟩ := ancestors_bareMachine options core w
  have hlineage : ∀ {a}, a ∈ (w.bareMachine options core).lineage
      ((w.bareMachine options core).vms.get w.vms.next).proxy →
      a = ⟨w.classes.size + 1⟩ ∨ a = w.classes.next := fun {a} ha => by
    rw [hvm, lineage_eq, hancestors] at ha
    simpa using ha
  have hkeep := get_link_of_ne w.rootLinked
    { name := proxyClassName, fields := [⟨handlerFieldName, handlerFieldType⟩] } 1
    (some w.classes.next) (c := w.classes.next) fun he => by
      rw [next_rootLinked] at he
      exact Nat.succ_ne_self _ (congrArg Ref.index he).symm
  refine ⟨⟨Store.live_next_add _ _, fun ha => ?_, fun ha => ?_⟩, ?_, ?_⟩
  · rw [Store.Live, size_bareMachine]
    rcases hlineage ha with rfl | rfl
    · exact Nat.lt_succ_self _
    · exact Nat.lt_add_of_pos_right Nat.two_pos
  · rcases hlineage ha with rfl | rfl
    · rw [classes_bareMachine, hproxy.declared]
    · rw [classes_bareMachine, hkeep]
      exact hroot.declared
  · rw [hvm]
    exact hfields
  · rw [hvm, hfields]
    rfl

/-- Every machine has one. -/
structure Based (w : World β) : Prop where
  base : ∀ {v}, w.vms.Live v → w.ProxyBase v

namespace Based

theorem empty : ({} : World β).Based where
  base hv := absurd hv (Nat.not_lt_zero _)

/-- Where no machine is new. -/
theorem of_grows (h : w.Based) (hg : w.Grows w')
    (hvms : ∀ {v}, w'.vms.Live v → w.vms.Live v) : w'.Based where
  base hv := (h.base (hvms hv)).of_grows hg

theorem of_onlyObjects (h : w.Based) (ho : w.OnlyObjects w') : w'.Based :=
  h.of_grows (ho.toExtends 0).grows fun {v} => (ho.liveVms v).mp

theorem define (h : w.Based) {d : ClassDecl β} (hd : w.define v d = .ok (c, w')) : w'.Based := by
  refine h.of_grows (extends_define hd).grows fun {u} hu => ?_
  obtain ⟨-, s, -, rfl⟩ := define_enrolls hd
  rw [live_enroll] at hu
  exact hu

theorem newVmAround (h : w.Based) (options : VmOptions) (core : Core) :
    (w.newVmAround options core).2.Based where
  base {u} hu := by
    have henrolled := newVmAround_enrolls w options core
    rw [henrolled, live_enroll, live_enroll] at hu
    rcases (Store.live_add_iff _ _ _).mp hu with hold | rfl
    · exact (h.base hold).of_grows (extends_newVmAround w options core).grows
    · rw [henrolled]
      exact (proxyBase_bareMachine w options core).of_grows
        ((extends_enroll _ _ (Nat.zero_le _)).trans (extends_enroll _ _ (Nat.zero_le _))).grows

end Based

/-- The class directly extends the proxy base of the machine. -/
def DirectProxy (w : World β) (v : VmRef) (c : ClassRef) : Prop :=
  (w.classes.get c).super? = some (w.vms.get v).proxy

theorem isProxyInstance_iff : w.isProxyInstance v o = true ↔ w.DirectProxy v (w.classOf o) := by
  rw [isProxyInstance, beq_iff_eq, DirectProxy]

/-- Above such a class there is the base, and what is above the base. -/
theorem DirectProxy.ancestors (h : w.DirectProxy v c) (hl : w.Lineages) :
    w.ancestors c = w.lineage (w.vms.get v).proxy := hl.headed h

/-- Its first field is that of the base. -/
theorem DirectProxy.fields (h : w.DirectProxy v c) (hl : w.Lineages) (hp : w.ProxyBase v) :
    ∃ rest, (w.classes.get c).fields = ⟨handlerFieldName, handlerFieldType⟩ :: rest := by
  have hmem : (w.vms.get v).proxy ∈ w.ancestors c := by
    rw [h.ancestors hl]
    exact w.mem_lineage_self _
  obtain ⟨rest, hrest⟩ := hl.fields hmem
  rw [hp.fields] at hrest
  exact ⟨rest, hrest.symm⟩

/-- A row keeps the handlers of such a class in the field of the base. -/
theorem DirectProxy.handlerOffset (h : w.DirectProxy v c) (hw : w.Sound) (hp : w.ProxyBase v)
    (hr : w.Resolves g i r) (hmem : r.cls ∈ w.lineage c) : r.handlerOffset = 0 := by
  have hoffset := hw.filled.offset hr
  rcases List.mem_cons.mp hmem with hcls | habove
  · obtain ⟨rest, hrest⟩ := h.fields hw.lineages hp
    rw [hcls, Class.fieldOffset, hrest, List.findIdx?_cons] at hoffset
    exact (Option.some.inj hoffset).symm
  · -- Neither the base nor what is above it has another field.
    have hlt : r.handlerOffset < (w.classes.get r.cls).fields.length := by
      obtain ⟨hlt, -⟩ := List.findIdx?_eq_some_iff_getElem.mp hoffset
      exact hlt
    have hlength : (w.classes.get r.cls).fields.length ≤ 1 := by
      have hprefix : (w.classes.get r.cls).fields <+:
          (w.classes.get (w.vms.get v).proxy).fields := by
        rw [show (w.classes.get c).ancestors = _ from h.ancestors hw.lineages] at habove
        rcases List.mem_cons.mp habove with heq | hup
        · exact heq ▸ List.prefix_rfl
        · exact hw.lineages.fields hup
      have hle := hprefix.length_le
      rwa [hp.fields] at hle
    omega

/-! ### What a new instance gets -/

/-- The allocation hook, the look-up of handlers and the opening of windows agree on a new
instance of a class, to which this handler was bound, or none. -/
structure Agrees (w : World β) (v : VmRef) (c : ClassRef) (bound : Option ObjectRef)
    (w' : World β) : Prop where
  /-- This is what the hook has answered. -/
  hooked : ∃ x, w' = x.counted v ∧
    (w.newObject c).2.bind v (w.coreOf v) w.objects.next = (.value bound, x)
  allocated : w.allocate v c = (.value w.objects.next, w')
  /-- The nearest class with a row is the one that the row was resolved for. -/
  nearest : bound.isSome = true ↔ ∃ a i r, w.rowHolder? (w.coreOf v).registry c = some a ∧
    w.ownEntry (w.coreOf v).registry a = some i ∧ w.Resolves (w.coreOf v).registry i r ∧ r.cls = a
  /-- The handler was made right after the instance. -/
  consecutive : ∀ {h}, bound = some h → h = ⟨w.objects.next.index + 1⟩ ∧ ¬ w.objects.Live h
  handler : w'.handlerOf v (w'.coreOf v) w.objects.next = bound
  window : ∀ th m, (w'.openWindow th v (w'.coreOf v) w.objects.next m).1.isPassthrough = false ↔
    bound.isSome = true ∧ ¬ w'.DirectProxy v c

/-- A new instance of such a class has its handler in the field of the base, or null. -/
theorem Furnished.baseField {y : Object} (h : w.Furnished g c o y) (hdirect : w.DirectProxy v c)
    (hw : w.Sound) (ht : w.Titled) (hp : w.ProxyBase v) :
    y.fields[0]? = some (match w.assigned? g c with
      | none => .null
      | some _ => .object o) := by
  cases hr : w.assigned? g c with
  | some r =>
    have hassigned := hw.assigned? ht g c
    rw [hr] at hassigned
    obtain ⟨⟨i, r'⟩, hi, rfl⟩ := Option.map_eq_some_iff.mp hassigned.symm
    obtain ⟨-, hres, hmem⟩ := interceptionOf_eq_some.mp hi
    have hfield := h.handler hr
    rwa [hdirect.handlerOffset hw hp hres hmem] at hfield
  | none =>
    obtain ⟨rest, hrest⟩ := hdirect.fields hw.lineages hp
    refine h.null (by rw [h.count, hrest]; exact Nat.succ_pos _) fun r hr' => ?_
    rw [hr] at hr'
    cases hr'

/-- The look-up finds what the class's nearest row assigns. -/
theorem Populates.handlerOf (h : w.Populates v cs w') (hc : cs[0]? = some c)
    (hv : w.vms.Live v) (hw : w.Sound) (ht : w.Titled)
    (hbased : w.Based) (honly : w.OnlyObjects w') :
    w'.classOf w.objects.next = c ∧ w'.handlerOf v (w'.coreOf v) w.objects.next =
      (w.assigned? (w.coreOf v).registry c).map fun _ => w.upcoming 1 := by
  have hmade : w.Furnished (w.coreOf v).registry c (w.upcoming 1)
    (w'.objects.get w.objects.next) := h.made hc
  have hassigned := hw.assigned? ht (w.coreOf v).registry c
  have hcls : w'.classOf w.objects.next = c := hmade.cls
  have hcore : w'.coreOf v = w.coreOf v := (honly.alike v).core
  refine ⟨hcls, ?_⟩
  rw [World.handlerOf]
  by_cases hproxy : w'.isProxyInstance v w.objects.next = true
  · -- The field of the base is the one that the row keeps handlers in.
    have hbase := hbased.base hv
    have hdirect : w.DirectProxy v c := by
      have hdirect' := isProxyInstance_iff.mp hproxy
      rw [hcls, DirectProxy, honly.classes, (honly.alike v).proxy] at hdirect'
      exact hdirect'
    rw [if_pos hproxy, (honly.alike v).proxyOffset, hbase.offset, field?,
      hmade.baseField hdirect hw ht hbase]
    cases w.assigned? (w.coreOf v).registry c with
    | none => rfl
    | some r => rfl
  · rw [if_neg hproxy, hcore, honly.interceptionOf, hcls]
    cases hi : w.interceptionOf (w.coreOf v).registry c with
    | none =>
      rw [hassigned, hi]
      rfl
    | some p =>
      obtain ⟨i, r⟩ := p
      have hr : w.assigned? (w.coreOf v).registry c = some r := by
        rw [hassigned, hi]
        rfl
      have hfield : w'.field? w.objects.next r.handlerOffset = some (.object (w.upcoming 1)) :=
        hmade.handler hr
      rw [hr, Option.bind_some]
      show (w'.field? w.objects.next r.handlerOffset).bind Value.asObject? = _
      rw [hfield]
      rfl

/-- A window opens for what is intercepted, unless it is an instance directly below the proxy
base. -/
theorem isPassthrough_openWindow (w : World β) (th : Thread) (v : VmRef) (core : Core)
    (o : ObjectRef) (m : CellRef) : (w.openWindow th v core o m).1.isPassthrough = false ↔
      (w.interceptionOf core.registry (w.classOf o)).isSome = true ∧
        ¬ w.DirectProxy v (w.classOf o) := by
  rw [← isProxyInstance_iff]
  have hopens := opens_openWindow w th v core o m
  generalize w.openWindow th v core o m = opened at hopens
  cases hopens with
  | passthrough h =>
    refine ⟨nofun, fun ⟨hsome, hproxy⟩ => ?_⟩
    rcases h with hproxy' | hnone
    · exact absurd hproxy' hproxy
    · rw [hnone] at hsome
      cases hsome
  | perCall hp hr _ => exact ⟨fun _ => ⟨by rw [hr]; rfl, by rw [hp]; exact Bool.false_ne_true⟩,
      fun _ => rfl⟩
  | classWide hp hr _ => exact ⟨fun _ => ⟨by rw [hr]; rfl, by rw [hp]; exact Bool.false_ne_true⟩,
      fun _ => rfl⟩

/-- All three agree. -/
theorem Sound.decides (hw : w.Sound) (ht : w.Titled) (hf : w.HandlersFirst) (hbased : w.Based)
    (hv : w.vms.Live v) (hc : w.classes.Live c) : ∃ bound w', w.Agrees v c bound w' := by
  obtain ⟨cs, hcs, hlength⟩ := HandlerChain.exists_of_live hw hf (w.coreOf v).registry hc
  obtain ⟨x, hx, hbind, hallocate⟩ := hcs.allocates hw ht hc hlength
  have honly : w.OnlyObjects (x.counted v) := by
    have honly' := onlyObjects_allocate w v c
    rwa [hallocate] at honly'
  obtain ⟨hcls, hhandler⟩ := hx.handlerOf (by cases hcs <;> rfl) hv hw ht hbased honly
  have hcore : (x.counted v).coreOf v = w.coreOf v := (honly.alike v).core
  have hrow : (w.interceptionOf (w.coreOf v).registry c).isSome =
      (w.assigned? (w.coreOf v).registry c).isSome := by
    rw [hw.assigned? ht, Option.isSome_map]
  refine ⟨_, x.counted v, ⟨x, rfl, hbind⟩, hallocate, ?_, fun hbound => ?_, hhandler,
    fun th m => ?_⟩
  · rw [Option.isSome_map, Option.isSome_iff_exists]
    simp only [assigned?_eq_some]
    exact ⟨fun ⟨r, a, i, h⟩ => ⟨a, i, r, h⟩, fun ⟨a, i, r, h⟩ => ⟨r, a, i, h⟩⟩
  · obtain ⟨r, -, rfl⟩ := Option.map_eq_some_iff.mp hbound
    exact ⟨rfl, Nat.not_lt.mpr (Nat.le_succ w.objects.size)⟩
  · rw [isPassthrough_openWindow, hcls, hcore, honly.interceptionOf, hrow,
      Option.isSome_map]

/-- The allocations that allocating an instance of a class asks for, each with the world it is
asked for in: its own, and that of its handler, if it gets one. -/
inductive Asks (v : VmRef) : World β → ClassRef → World β → ClassRef → Prop
  | own {w : World β} {c : ClassRef} : Asks v w c w c
  | handler {w x : World β} {c d : ClassRef} {i : Nat} {r : Resolution}
      (hr : w.interceptionOf (w.coreOf v).registry c = some (i, r))
      (h : Asks v (w.newObject c).2 r.handlerClass x d) : Asks v w c x d

/-- They are for classes that were there, and only objects have come up since. -/
theorem Asks.within (h : Asks v w c x d) (hw : w.Sound) (hc : w.classes.Live c) :
    w.OnlyObjects x ∧ x.classes.Live d := by
  induction h with
  | own => exact ⟨.refl _, hc⟩
  | handler hr _ ih =>
    have hnew := onlyObjects_newObject hc
    obtain ⟨-, hres, -⟩ := interceptionOf_eq_some.mp hr
    obtain ⟨u, hu, -⟩ := hw.filled.handler hres
    obtain ⟨honly, hlive⟩ :=
      ih (hw.of_onlyObjects hnew) (by rw [hnew.classes]; exact hw.homes.live hu)
    exact ⟨hnew.trans honly, hlive⟩

end World

/-! ### Every moment -/

theorem upheld_based : Upheld (β := β) (fun op => op.IsOrdinary = true) World.Based
    (fun _ _ => True) where
  ordinary h := h
  start := .empty
  refl := trivial
  trans _ _ _ _ _ _ := trivial
  registry rows _ h :=
    ⟨h.of_grows (World.extends_newRegistry 0 _ rows).grows fun hv => hv, trivial⟩
  machine options core _ h := ⟨h.newVmAround options core, trivial⟩
  define _ h hd := ⟨h.define hd, trivial⟩
  objects _ h hstep := ⟨h.of_onlyObjects hstep.onlyObjects, trivial⟩
  opening {w th v this m _} hw h hm _ :=
    ⟨h.of_grows (hw.turns_openWindow hm).grows fun hv => by
      rwa [(World.shifts_openWindow w th v (w.coreOf v) this m).vms] at hv, trivial⟩
  closing {w x th v this m _ u} hw _ hm _ hx h htends _ :=
    ⟨h.of_grows (hw.turns_closeWindow hm hx htends.grows u).grows fun hv => by
      rwa [(World.shifts_closeWindow x u _).vms] at hv, trivial⟩

/-- Some allocation, at whatever moment, binds the handler to the object. -/
def Trail.Binds (t : Trail β) (o h : ObjectRef) : Prop :=
  ∃ w th v c x d x', t.At w th ∧ w.Registered v c ∧ World.Asks v w c x d ∧ o = x.objects.next ∧
    (x.newObject d).2.bind v (x.coreOf v) o = (.value (some h), x')

/-- Where no field is written by hand, nobody ever has the handler of another. -/
theorem Reached.handlers_apart {host : Host β H} {s : State β (Logged β H)}
    (hb : ∀ b v this args, (host.body b v this args).Uses fun op => op.KeepsFields = true)
    (hs : Reached host (fun op => op.KeepsFields = true) s) {w w' : World β} {th th' : Thread}
    (hat : s.trail.At w th) (hat' : s.trail.At w' th') {v v' : VmRef} {core core' : Core}
    {o o' h : ObjectRef} (hh : w.handlerOf v core o = some h)
    (hh' : w'.handlerOf v' core' o' = some h) : o = o' := by
  have hordered := upheld_owned.ordered hb hs
  obtain ⟨i, hi⟩ := World.field?_of_handlerOf hh
  obtain ⟨j, hj⟩ := World.field?_of_handlerOf hh'
  -- What is held at the earlier of the two moments is still held at the later one.
  have hkeeps : w.objects.Keeps w'.objects ∨ w'.objects.Keeps w.objects := by
    have hsymm : Std.Symm fun x y : World β =>
        x.objects.Keeps y.objects ∨ y.objects.Keeps x.objects := ⟨fun _ _ => Or.symm⟩
    exact List.Pairwise.forall_of_forall (R := fun x y : World β =>
      x.objects.Keeps y.objects ∨ y.objects.Keeps x.objects) (fun x _ => Or.inl (.refl _))
      (hordered.ordered.imp fun h => Or.inr h.2) hat.mem_worlds hat'.mem_worlds
  rcases hkeeps with hkeeps | hkeeps
  · rw [← World.field?_of_keeps hkeeps (World.live_of_field? hi) i] at hi
    exact ((hordered.each _ hat'.mem_worlds).2.once hi hj).1
  · rw [← World.field?_of_keeps hkeeps (World.live_of_field? hj) j] at hj
    exact ((hordered.each _ hat.mem_worlds).2.once hi hj).1

section Reached

variable {host : Host β H} {s : State β (Logged β H)}

/-- What an allocation asks for at any moment is agreed on. -/
theorem Reached.agrees_asked
    (hb : ∀ b v this args, (host.body b v this args).Uses fun op => op.IsOrdinary = true)
    (hs : Reached host (fun op => op.IsOrdinary = true) s) {w x : World β} {th : Thread}
    {v : VmRef} {c d : ClassRef} (hat : s.trail.At w th) (hc : w.Registered v c)
    (hask : World.Asks v w c x d) : ∃ bound x', x.Agrees v d bound x' := by
  obtain ⟨hw, ht⟩ := Reached.titled hb hs hat
  obtain ⟨-, hfirst⟩ := upheld_handlersFirst.everywhere hb hs hat
  obtain ⟨-, hbased⟩ := upheld_based.everywhere hb hs hat
  obtain ⟨honly, hd⟩ := hask.within hw (hw.homes.live hc)
  have htitled : x.Titled := ht.of_sameClasses honly.sameClasses fun u => by
    obtain ⟨n, hn⟩ := honly.vms u
    rw [hn]
  exact (hw.of_onlyObjects honly).decides htitled (hfirst.of_onlyObjects honly)
    (hbased.of_onlyObjects honly) ((honly.liveVms v).mpr hc.live_vm) hd

/-- At every moment of a run of ordinary bodies the hook, the look-up and the window agree on
what an allocation makes, on its handlers as well.  No handler is bound to two objects, and
where no field is written by hand no two objects are ever found to have the same handler. -/
theorem Reached.agrees
    (hb : ∀ b v this args, (host.body b v this args).Uses fun op => op.IsOrdinary = true)
    (hs : Reached host (fun op => op.IsOrdinary = true) s) :
    (∀ {w th v c x d}, s.trail.At w th → w.Registered v c → World.Asks v w c x d →
      ∃ bound x', x.Agrees v d bound x') ∧
    (∀ {o o' h}, s.trail.Binds o h → s.trail.Binds o' h → o = o') ∧
    ((∀ b v this args, (host.body b v this args).Uses fun op => op.KeepsFields = true) →
      Reached host (fun op => op.KeepsFields = true) s →
      ∀ {w w' th th' v v' core core' o o' h}, s.trail.At w th → s.trail.At w' th' →
        w.handlerOf v core o = some h → w'.handlerOf v' core' o' = some h → o = o') := by
  have hnext : ∀ {o h}, s.trail.Binds o h → h = ⟨o.index + 1⟩ := by
    rintro o h ⟨w, th, v, c, x, d, x', hat, hc, hask, rfl, hbind⟩
    obtain ⟨bound, x'', hagrees⟩ := Reached.agrees_asked hb hs hat hc hask
    obtain ⟨y, -, hhook⟩ := hagrees.hooked
    have hbound : bound = some h := by
      rw [hbind] at hhook
      exact (Ending.value.inj (congrArg Prod.fst hhook)).symm
    exact (hagrees.consecutive hbound).1
  refine ⟨Reached.agrees_asked hb hs, fun ho ho' => ?_, fun hbodies hreached => ?_⟩
  · have hsame := congrArg Ref.index ((hnext ho).symm.trans (hnext ho'))
    exact Ref.ext_index (Nat.succ_inj.mp hsame)
  · exact fun hat hat' => Reached.handlers_apart hbodies hreached hat hat'

end Reached

/-! ### The demonstration -/

namespace Demo

/-- Handlers are bound to activities and to their handlers, but not to the handlers of those,
and the first activity has its handler to itself. -/
theorem agreed_audited : (∃ x, audited.world.Agrees ⟨0⟩ ⟨4⟩ (some ⟨4⟩) x) ∧
    (∃ x, (audited.world.newObject ⟨4⟩).2.Agrees ⟨0⟩ ⟨3⟩ (some ⟨5⟩) x) ∧
    (∃ x, audited.world.Agrees ⟨0⟩ ⟨2⟩ none x) ∧
    ∀ o, audited.world.handlerOf ⟨0⟩ (audited.world.coreOf ⟨0⟩) o = some ⟨1⟩ → o = ⟨0⟩ := by
  obtain ⟨hactivity, hhandler, hauditor⟩ := resolved_audited
  have hcore : (audited.world.coreOf ⟨0⟩).registry = ⟨0⟩ := by decide +kernel
  rw [← hcore] at hactivity hhandler hauditor
  have hat : audited.trail.At audited.world {} := Or.inl ⟨rfl, by decide +kernel⟩
  have hrow : audited.world.interceptionOf (audited.world.coreOf ⟨0⟩).registry ⟨4⟩ =
      some (0, ⟨⟨4⟩, ⟨3⟩, 0, ⟨6⟩, ⟨5⟩⟩) := by decide +kernel
  have hregistered : ∀ c ∈ (audited.world.vms.get ⟨0⟩).classes.classes,
      audited.world.Registered ⟨0⟩ c := fun _ => id
  obtain ⟨hagrees, -, hapart⟩ := Reached.agrees uses_body (reached_audited rfl rfl)
  have hbound : ∀ {x : World Body} {c r bound x'}, x.Agrees ⟨0⟩ c bound x' →
      x.assigned? (x.coreOf ⟨0⟩).registry c = some r → bound = some ⟨x.objects.next.index + 1⟩ := by
    intro x c r bound x' h hr
    obtain ⟨a, i, ha⟩ := World.assigned?_eq_some.mp hr
    obtain ⟨o, rfl⟩ := Option.isSome_iff_exists.mp (h.nearest.mpr ⟨a, i, r, ha⟩)
    rw [(h.consecutive rfl).1]
  refine ⟨?_, ?_, ?_, fun o ho => ?_⟩
  · obtain ⟨bound, x, h⟩ := hagrees hat (hregistered ⟨4⟩ (by decide +kernel)) .own
    obtain rfl := hbound h hactivity
    exact ⟨x, h⟩
  · obtain ⟨bound, x, h⟩ := hagrees hat (hregistered ⟨4⟩ (by decide +kernel)) (.handler hrow .own)
    obtain rfl := hbound h hhandler
    exact ⟨x, h⟩
  · obtain ⟨bound, x, h⟩ := hagrees hat (hregistered ⟨2⟩ (by decide +kernel)) .own
    cases bound with
    | none => exact ⟨x, h⟩
    | some o =>
      obtain ⟨a, i, r, hr⟩ := h.nearest.mp rfl
      rw [World.assigned?_eq_some.mpr ⟨a, i, hr⟩] at hauditor
      cases hauditor
  · have hfirst : audited.world.handlerOf ⟨0⟩ (audited.world.coreOf ⟨0⟩) ⟨0⟩ = some ⟨1⟩ := by
      decide +kernel
    exact hapart (uses_callMethod rfl) (reached_audited rfl rfl) hat hat ho hfirst

end Demo

end Interception
