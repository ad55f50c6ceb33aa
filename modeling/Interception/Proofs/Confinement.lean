/-
Classes that are not intercepted.

A row binds the class it was resolved for, by identity, and with it the classes derived from
that one.  Every other class is left alone: patching copies a table and gives the copy to the
class patched and to no other, windows switch tables of resolved classes only and write into
copies only, and handlers are looked up along the lineage.  So a class none of whose lineage
was patched keeps the one table it was linked with and every cell in it keeps what was
declared, whatever else is intercepted by the same machines, under the same names or the same
core.  Direct methods are in no table at all, so their cells stay even where the class is
intercepted.
-/
import Interception.Proofs.Binding
import Interception.Proofs.Directs
import Interception.Proofs.Slots

namespace Interception

variable {β H : Type}

namespace World

variable {w w' : World β} {v : VmRef} {c : ClassRef} {g : RegistryRef} {i k : Nat}
  {r : Resolution} {name : String} {m : CellRef}

/-- No class of the lineage was patched. -/
def Free (w : World β) (c : ClassRef) : Prop :=
  ∀ {g i r}, w.Resolves g i r → r.cls ∉ w.lineage c

instance (w : World β) (c : ClassRef) : Decidable (w.Free c) :=
  decidable_of_iff
    (∀ g ∈ w.registries.refs, ∀ i < (w.registries.get g).entries.size,
      ∀ r ∈ (w.entry g i).resolution, r.cls ∉ w.lineage c)
    ⟨fun h g i r hr => h g (Store.mem_refs.mpr hr.live) i hr.lt_size r hr,
      fun h _ _ _ _ _ hr => h hr⟩

theorem Free.unbound (h : w.Free c) : w.Unbound c := by
  rintro g i r hr rfl
  exact h hr (w.mem_lineage_self _)

/-! ### Tables that stay -/

/-- Entries are filled in for new classes only, and a class that was not patched keeps its
table. -/
structure Confines (w w' : World β) : Prop where
  newly : ∀ {g i r}, w'.Resolves g i r → w.classes.Live r.cls → w.Resolves g i r
  tables : ∀ c, w.classes.Live c → w.Unbound c →
    (w'.classes.get c).table = (w.classes.get c).table

/-- A class that was not patched was given one table in its life. -/
def Served (w : World β) : Prop :=
  ∀ c, w.classes.Live c → w.Unbound c →
    (w.classes.get c).scope.tables = [(w.classes.get c).table]

namespace Confines

theorem refl (w : World β) : w.Confines w := ⟨fun hr _ => hr, fun _ _ _ => rfl⟩

theorem unbound (h : w.Confines w') (hc : w.classes.Live c) (hu : w.Unbound c) :
    w'.Unbound c := by
  rintro g i r hr rfl
  exact hu g i r (h.newly hr hc) rfl

theorem free (h : w.Confines w') (hw : w.Sound) (hg : w.Grows w') (hc : w.classes.Live c)
    (hf : w.Free c) : w'.Free c := by
  intro g i r hr hmem
  rw [hg.lineage hc] at hmem
  exact hf (h.newly hr (hw.lineages.live_of_mem_lineage hc hmem)) hmem

theorem trans {x : World β} (h : w.Confines x) (h' : x.Confines w') (hg : w.Grows x) :
    w.Confines w' where
  newly hr hc := h.newly (h'.newly hr (hg.classes _ hc).1) hc
  tables c hc hu :=
    (h'.tables c (hg.classes c hc).1 (h.unbound hc hu)).trans (h.tables c hc hu)

/-- Setting up, defining, allocating and writing fields. -/
theorem of_extends (h : Extends w.classes.size w w') : w.Confines w' where
  newly {g i r} hr hc := by
    rcases h.newly hr with hold | hnew
    · exact hold
    · exact absurd hc (Nat.not_lt.mpr hnew)
  tables c hc _ := by rw [h.classes c hc hc]

/-- Going into windows and out of them. -/
theorem of_shifts (h : w.Shifts w')
    (htables : ∀ c, w.Unbound c → (w'.classes.get c).table = (w.classes.get c).table) :
    w.Confines w' where
  newly hr _ := h.resolves.mp hr
  tables c _ hu := htables c hu

end Confines

/-! ### Steps -/

theorem classes_enroll (w : World β) (v : VmRef) (c : ClassRef) : (w.enroll v c).classes =
    (w.patch v (w.coreOf v) c).2.classes.modify c fun k => { k with initialized := true } := rfl

theorem scope_link (w : World β) (d : ClassDecl β) (number : Nat) (super? : Option ClassRef) :
    ((w.link d number super?).2.classes.get w.classes.next).scope.tables = [w.tables.next] := by
  show ((w.classes.add _).get w.classes.next).scope.tables = _
  rw [Store.get_add_next]
  rfl

namespace Served

theorem empty : ({} : World β).Served := fun c hc => absurd hc (Nat.not_lt_zero c.index)

/-- A class that is as it was. -/
theorem kept (h : w.Served) (hg : w.Grows w') (hc : w.classes.Live c) (hu : w'.Unbound c)
    (htables : (w'.classes.get c).scope.tables = (w.classes.get c).scope.tables)
    (htable : (w'.classes.get c).table = (w.classes.get c).table) :
    (w'.classes.get c).scope.tables = [(w'.classes.get c).table] := by
  rw [htables, htable]
  exact h c hc fun g i r hr => hu g i r (hg.resolved hr)

theorem of_classes (h : w.Served) (hg : w.Grows w') (hc : w'.classes = w.classes) : w'.Served :=
  fun a ha hu => h.kept hg (by rwa [hc] at ha) hu (by rw [hc]) (by rw [hc])

theorem of_shifts (h : w.Served) (hs : w.Shifts w') (hc : w.Confines w') : w'.Served :=
  fun a ha hu => by
    have hlive := (hs.liveClasses a).mp ha
    obtain ⟨t, ht⟩ := hs.classes a
    exact h.kept hs.grows hlive hu (by rw [ht])
      (hc.tables a hlive fun g i r hr => hu g i r (hs.grows.resolved hr))

theorem link (h : w.Served) (d : ClassDecl β) (number : Nat) (super? : Option ClassRef) :
    (w.link d number super?).2.Served := by
  intro a ha hu
  rcases (live_link_iff w d number super? a).mp ha with hold | rfl
  · have hsame := get_link_of_ne w d number super? hold.ne_next
    exact h.kept (extends_link 0 w d number super?).grows hold hu (by rw [hsame]) (by rw [hsame])
  · rw [scope_link, (get_link_next w d number super?).table]

/-- A class that patching installed a table in was bound by it. -/
theorem patch (h : w.Served) (ho : w.Orderly) (core : Core) :
    (w.patch v core c).2.Served := by
  have hp := patches_patch w v core c
  have hg := (extends_patch w v core (Nat.zero_le c.index)).grows
  generalize (w.patch v core c).2 = x at hp hg ⊢
  cases hp with
  | nothing => exact h
  | @installs i handler offset hi hnone _ _ =>
    intro a ha hu
    have hbound : (w.installTrampolines core.registry i c handler offset).Resolves core.registry i
        (w.patchOf c handler offset) :=
      resolves_patchOf (Orderly.registry_live hi) (ho.lt_size hi) hnone
    have hne : a ≠ c := fun hac => hu _ _ _ hbound hac.symm
    have hlive : w.classes.Live a := (Store.live_modify ..).mp ha
    have hsame : (w.installTrampolines core.registry i c handler offset).classes.get a =
        w.classes.get a := Store.get_modify_of_ne hne _
    exact h.kept hg hlive hu (by rw [hsame]) (by rw [hsame])

theorem enroll (h : w.Served) (ho : w.Orderly) : (w.enroll v c).Served := by
  have hpatched := h.patch (v := v) (c := c) ho (w.coreOf v)
  have hg := (extends_patched w v c).grows
  have hclasses := classes_enroll w v c
  generalize (w.patch v (w.coreOf v) c).2 = x at hpatched hg hclasses
  intro a ha hu
  rw [hclasses] at ha ⊢
  have hscope := Store.part_get_modify (fun k : Class β => k.scope.tables)
    (f := fun k => { k with initialized := true }) (fun _ => rfl) x.classes c a
  have htable := Store.part_get_modify Class.table
    (f := fun k : Class β => { k with initialized := true }) (fun _ => rfl) x.classes c a
  rw [hscope, htable]
  exact hpatched a ((Store.live_modify ..).mp ha) fun g i r hr => hu g i r (hg.resolved hr)

end Served

section Windows

variable {th : Thread} {core : Core} {o : ObjectRef}

theorem confines_openWindow (w : World β) (th : Thread) (v : VmRef) (core : Core)
    (o : ObjectRef) (m : CellRef) : w.Confines (w.openWindow th v core o m).2.1 := by
  refine .of_shifts (shifts_openWindow w th v core o m) fun c hu => ?_
  have hopens := opens_openWindow w th v core o m
  generalize w.openWindow th v core o m = x at hopens ⊢
  cases hopens with
  | passthrough _ => rfl
  | perCall _ _ _ => rfl
  | @classWide i r _ hr _ =>
    have hne : c ≠ r.cls := fun hc => hu _ _ _ (interceptionOf_eq_some.mp hr).2.1 hc.symm
    exact congrArg Class.table (table_disarm_of_ne hne m)

theorem confines_closeWindow (w : World β) (th : Thread) (guard : Guard β) :
    w.Confines (w.closeWindow th guard).1 := by
  refine .of_shifts (shifts_closeWindow w th guard) fun c hu => ?_
  obtain ⟨g, m, o, window⟩ := guard
  cases window with
  | passthrough => rfl
  | perCall i key => rfl
  | classWide i token =>
    cases hres : (w.entry g i).resolution with
    | none => simp only [closeWindow, hres]; rfl
    | some r =>
      have hne : c ≠ r.cls := fun hc => hu _ _ _ hres hc.symm
      rw [closeWindow_classWide w th _ _ _ _ hres]
      exact congrArg Class.table (table_rearm_of_ne hne m token)

end Windows

end World

/-- Ordinary runs confine interception to what was patched. -/
theorem upheld_confines : Upheld (β := β) (fun op => op.IsOrdinary = true) World.Served
    World.Confines where
  ordinary h := h
  start := .empty
  refl := .refl _
  trans _ _ hg _ h h' := h.trans h' hg.grows
  registry rows _ h :=
    ⟨h.of_classes (World.extends_newRegistry 0 _ rows).grows rfl,
      .of_extends (World.extends_newRegistry _ _ rows)⟩
  machine options core hw h := by
    refine ⟨hw.newVmAround_keeps options core ?_ fun ho _ _ _ hx => hx.enroll ho,
      .of_extends (World.extends_newVmAround _ options core)⟩
    exact ((h.link _ _ _).link _ _ _).of_classes (World.extends_addVm 0 _ _).grows rfl
  define hw h hd :=
    ⟨hw.define_induct hd (fun _ => h.link _ _ _) fun ho _ _ _ hx => hx.enroll ho,
      .of_extends (World.extends_define hd)⟩
  objects _ h hstep := by
    have ho := hstep.onlyObjects
    exact ⟨h.of_classes (ho.toExtends 0).grows ho.classes, .of_extends (ho.toExtends _)⟩
  opening {w th v this m _} _ h _ _ := by
    have hc := World.confines_openWindow w th v (w.coreOf v) this m
    exact ⟨h.of_shifts (World.shifts_openWindow w th v (w.coreOf v) this m) hc, hc⟩
  closing {w x th v this m _ u} _ _ _ _ _ h _ _ := by
    have hc := World.confines_closeWindow x u (w.openWindow th v (w.coreOf v) this m).1
    exact ⟨h.of_shifts (World.shifts_closeWindow x u _) hc, hc⟩

/-! ### What a class that is not intercepted is like -/

namespace World

variable {w w' : World β} {v : VmRef} {c : ClassRef}

/-- The class has the one table it was ever given, every cell in it holds what is declared and
is no trampoline, its instances are made alone and get no handler, and a window on a call to
one of them is none. -/
structure Bystander (w : World β) (c : ClassRef) : Prop where
  served : (w.classes.get c).scope.tables = [(w.classes.get c).table]
  cells : ∀ {k m}, w.methodAt c k = some m → (w.content m).isTrampoline = false ∧
    ∃ name, w.slotOf c name = some k ∧ w.declared? c name k = some (w.content m)
  alone : ∀ v, w.allocate v c = (.value w.objects.next, (w.newObject c).2.counted v)
  unhandled : ∀ {o}, w.classOf o = c → ∀ v core, w.isProxyInstance v o = false →
    w.handlerOf v core o = none
  unbound : ∀ {o}, w.classOf o = c → ∀ v core, w.bind v core o = (.value none, w)
  passes : ∀ {o}, w.classOf o = c → ∀ th v core m,
    w.openWindow th v core o m = (⟨core.registry, m, o, .passthrough⟩, w, th)

theorem Free.interceptionOf (h : w.Free c) (g : RegistryRef) : w.interceptionOf g c = none := by
  cases hr : w.interceptionOf g c with
  | none => rfl
  | some x =>
    obtain ⟨-, hres, hmem⟩ := interceptionOf_eq_some.mp hr
    exact absurd hmem (h hres)

theorem Sound.bystander (hw : w.Sound) (hs : w.Served) (hc : w.classes.Live c)
    (hf : w.Free c) : w.Bystander c where
  served := hs c hc hf.unbound
  cells {k m} hm := by
    have hplain := hw.not_copied hc hf hm
    obtain ⟨name, hname⟩ :=
      (hw.tabled.current c hc).named (List.getElem?_eq_some_iff.mp hm).1
    have hdeclared := hw.declared_plain hc hname hm hplain
    exact ⟨isTrampoline_of_declared? hdeclared, name, hname, hdeclared⟩
  alone v := by
    obtain ⟨u, hu⟩ := hw.homed c hc
    exact allocateWithin_alone (hw.homes.ready hu) (hf.interceptionOf _)
  unhandled ho v core hp := by
    rw [handlerOf, if_neg (by rw [hp]; exact Bool.false_ne_true), ho, hf.interceptionOf]
    rfl
  unbound ho v core := by
    unfold World.bind bindWith
    rw [ho, hf.interceptionOf]
  passes ho th v core m := by
    unfold World.openWindow
    rw [ho, hf.interceptionOf]
    split <;> rfl

/-- A class that is not intercepted keeps its table and all that is in it. -/
theorem Confines.kept (h : w.Confines w') (hw : w.Sound) (ht : w.Tends w')
    (hc : w.classes.Live c) (hf : w.Free c) :
    w'.Free c ∧ (w'.classes.get c).table = (w.classes.get c).table ∧
      w'.tableOf c = w.tableOf c ∧ ∀ m ∈ w.tableOf c, w'.content m = w.content m := by
  have htable := h.tables c hc hf.unbound
  have hfits := hw.tabled.current c hc
  refine ⟨h.free hw ht.grows hc hf, htable, ?_, fun m hm => ?_⟩
  · rw [tableOf, htable]
    exact (ht.grows.tables _ hfits.live).2
  · obtain ⟨k, hk⟩ := List.mem_iff_getElem?.mp hm
    exact ht.plain m (hfits.live_of_mem hk) (hw.not_copied hc hf hk)

/-- The cells of direct methods are the same, and hold the same. -/
theorem Directs.kept (h : w.Directs) (ht : w.Tends w') (hc : w.classes.Live c) :
    (w'.classes.get c).directs = (w.classes.get c).directs ∧
      ∀ m ∈ (w.classes.get c).directs, w'.content m = w.content m :=
  ⟨(ht.grows.classes c hc).2.directs, fun m hm => ht.plain m (h.live hm) (h.plain hm)⟩

/-- Enrolling a class that is not patched by it leaves its table as it was linked. -/
theorem table_enroll (ho : w.Orderly) (hu : (w.enroll v c).Unbound c) :
    ((w.enroll v c).classes.get c).table = (w.classes.get c).table := by
  have hp := patches_patch w v (w.coreOf v) c
  have hg := (extends_patched w v c).grows
  have hclasses := classes_enroll w v c
  generalize (w.patch v (w.coreOf v) c).2 = x at hp hg hclasses
  have htable := Store.part_get_modify Class.table
    (f := fun k : Class β => { k with initialized := true }) (fun _ => rfl) x.classes c c
  rw [hclasses, htable]
  cases hp with
  | nothing => rfl
  | @installs i handler offset hi hnone _ _ =>
    have hbound : (w.installTrampolines (w.coreOf v).registry i c handler offset).Resolves
        (w.coreOf v).registry i (w.patchOf c handler offset) :=
      resolves_patchOf (Orderly.registry_live hi) (ho.lt_size hi) hnone
    exact absurd rfl (hu _ _ _ (hg.resolved hbound))

/-- The world right after a declared class was linked on a machine, before the hook ran. -/
def linked (w : World β) (v : VmRef) (d : ClassDecl β) (s : ClassRef) : World β :=
  (w.link d (w.vms.get v).classes.next (some s)).2

/-- A definition is linking and enrolling, and leaves the table as it was linked if the class
is not patched by it. -/
theorem Sound.define_linked (hw : w.Sound) {d : ClassDecl β} (hd : w.define v d = .ok (c, w')) :
    ∃ s, w.findClass v (d.extends?.getD rootClassName) = some s ∧ c = w.classes.next ∧
      w' = (w.linked v d s).enroll v c ∧
      (w'.Unbound c → (w'.classes.get c).table = ((w.linked v d s).classes.get c).table ∧
        w'.tableOf c = (w.linked v d s).tableOf c ∧
        ∀ m ∈ (w.linked v d s).tableOf c, w'.content m = (w.linked v d s).content m) := by
  obtain ⟨rfl, s, hs, hw'⟩ := define_enrolls hd
  obtain ⟨hreg, -⟩ := hw.homes.of_findClass hs
  have hsuper : ∀ a, some s = some a → w.classes.Live a := fun a ha => by
    cases ha
    exact hw.homes.live hreg
  have hordered := hw.tabled.ordered hw.lineages (hw.homes.live hreg)
  have ho : (w.linked v d s).Orderly := hw.orderly.link d _ _
  have ht : (w.linked v d s).Tabled :=
    hw.tabled.link hw.lineages hw.orderly d _ hsuper hordered
  have hfits := ht.current w.classes.next (Store.live_next_add _ _)
  have hw' : w' = (w.linked v d s).enroll v w.classes.next := hw'
  refine ⟨s, hs, rfl, hw', fun hu => ?_⟩
  generalize w.linked v d s = x at *
  subst hw'
  have hext := extends_enroll x v (Nat.zero_le w.classes.next.index)
  have htable := table_enroll ho hu
  refine ⟨htable, ?_, fun m hm => ?_⟩
  · rw [tableOf, htable]
    exact (hext.grows.tables _ hfits.live).2
  · obtain ⟨k, hk⟩ := List.mem_iff_getElem?.mp hm
    exact hext.content (hfits.live_of_mem hk)

end World

section Reached

variable {host : Host β H} {s : State β (Logged β H)}

/-- **Interception is confined to the classes bound and what derives from them.**  Whatever
runs on any number of machines, a class none of whose lineage a row was resolved for is left
alone.  From one moment to any later one it keeps its table and what is in it, and so does
every class keep the cells of its direct methods.  At every moment it has the one table it was
given, none of its cells is a trampoline, its instances get no handler and windows on them are
none; and when it is defined, its table is the one it was linked with. -/
theorem Reached.confined
    (hb : ∀ b v this args, (host.body b v this args).Uses fun op => op.IsOrdinary = true)
    (hs : Reached host (fun op => op.IsOrdinary = true) s) :
    (s.trail.worlds.Pairwise fun later earlier => ∀ v c, earlier.Registered v c →
      ((later.classes.get c).directs = (earlier.classes.get c).directs ∧
        ∀ m ∈ (earlier.classes.get c).directs, later.content m = earlier.content m) ∧
      (earlier.Free c → later.Free c ∧
        (later.classes.get c).table = (earlier.classes.get c).table ∧
        later.tableOf c = earlier.tableOf c ∧
        ∀ m ∈ earlier.tableOf c, later.content m = earlier.content m)) ∧
    ∀ w ∈ s.trail.worlds,
      (∀ v c, w.Registered v c → w.Free c → w.Bystander c) ∧
      (∀ c, ∀ m ∈ (w.classes.get c).directs, (w.content m).isTrampoline = false) ∧
      ∀ v d c w', w.define v d = .ok (c, w') →
        ∃ s, w.findClass v (d.extends?.getD rootClassName) = some s ∧
          (∀ m ∈ ((w.linked v d s).classes.get c).directs,
            w'.content m = (w.linked v d s).content m) ∧
          (w'.Free c → (w'.classes.get c).table = ((w.linked v d s).classes.get c).table ∧
            w'.tableOf c = (w.linked v d s).tableOf c ∧
            ∀ m ∈ (w.linked v d s).tableOf c, w'.content m = (w.linked v d s).content m) := by
  have hordered := upheld_confines.ordered hb hs
  have hdirects : ∀ w ∈ s.trail.worlds, w.Directs := fun w hw => by
    obtain ⟨th, hat⟩ := Trail.at_of_mem_worlds hw
    exact (hs.directs hb hat).2
  refine ⟨?_, fun w hw => ?_⟩
  · refine hordered.ordered.imp_of_mem fun {later earlier} _ hearlier h v c hc => ?_
    obtain ⟨⟨hsound, htends⟩, hconfines⟩ := h
    have hlive := hsound.homes.live hc
    exact ⟨(hdirects earlier hearlier).kept htends hlive,
      fun hf => hconfines.kept hsound htends hlive hf⟩
  · obtain ⟨hsound, hserved⟩ := hordered.each w hw
    refine ⟨fun v c hc hf => hsound.bystander hserved (hsound.homes.live hc) hf,
      fun c m hm => ?_, fun v d c w' hd => ?_⟩
    · cases htramp : (w.content m).isTrampoline with
      | false => rfl
      | true => exact absurd (hsound.tabled.copied htramp) ((hdirects w hw).plain hm)
    · obtain ⟨s, hs, -, rfl, htables⟩ := hsound.define_linked hd
      have hlinked : (w.linked v d s).Directs := (hdirects w hw).link hsound.tabled d _ _
      have hext := World.extends_enroll (w.linked v d s) v (Nat.zero_le c.index)
      exact ⟨s, hs, fun m hm => hext.content (hlinked.live hm), fun hf => htables hf.unbound⟩

end Reached

/-! ### The demonstration -/

namespace Demo

/-- Define the classes on both of two machines, and call the method on the first. -/
def sharing : Program Body Tally Unit := do
  let _ ← Program.perform (.define ⟨0⟩ handlerDecl)
  let c ← Program.perform (.define ⟨0⟩ activityDecl)
  let _ ← Program.perform (.define ⟨1⟩ handlerDecl)
  let _ ← Program.perform (.define ⟨1⟩ activityDecl)
  let o ← Program.perform (.allocate ⟨0⟩ c)
  let _ ← Program.perform (.callVirtual ⟨0⟩ o methodName [])
  pure ()

theorem uses_sharing : sharing.Uses fun op => op.IsOrdinary = true := by
  refine .bind (.perform rfl) fun _ => .bind (.perform rfl) fun _ => ?_
  refine .bind (.perform rfl) fun _ => .bind (.perform rfl) fun _ => ?_
  exact .bind (.perform rfl) fun _ => .bind (.perform rfl) fun _ => trivial

/-- The state after that, where both machines have one core and windows are class-wide. -/
def shared : State Body (Logged Body Tally) :=
  let w := (({} : World Body).newRegistry builtinRows).2
  let w := (w.newVmAround { maxDepth } ⟨⟨0⟩, .classWide⟩).2
  let w := (w.newVmAround { maxDepth } ⟨⟨0⟩, .classWide⟩).2
  (sharing.lift.start host.logged ⟨w, {}, ({}, [])⟩).2

theorem reached_shared : Reached host (fun op => op.IsOrdinary = true) shared := by
  have hstart : Reached host (fun op => op.IsOrdinary = true) ⟨{}, {}, ({}, [])⟩ :=
    .start ({} : Tally)
  have hregistry := hstart.registry builtinRows
  have hfirst := hregistry.machine { maxDepth } ⟨⟨0⟩, .classWide⟩ (Store.live_next_add _ _)
  have hsecond := hfirst.machine { maxDepth } ⟨⟨0⟩, .classWide⟩
    ((World.extends_newVmAround _ _ _).grows.registries ⟨0⟩ (Store.live_next_add _ _)).1
  exact hsecond.run sharing uses_sharing

/-- The world in which the handler calls through. -/
def sharedInside : World Body := shared.trail.worlds.getD 6 {}

theorem mem_sharedInside : sharedInside ∈ shared.trail.log.map Moment.world := by
  have hlength : 5 < (shared.trail.log.map Moment.world).length := by decide +kernel
  have hget : (shared.trail.log.map Moment.world).getD 5 {} = sharedInside := rfl
  rw [← hget, List.getD_eq_getElem?_getD, List.getElem?_eq_getElem hlength]
  exact List.getElem_mem hlength

/-- The second machine's activity has the name of the row and is left alone all the same: while
the first machine's has its other table back, it has its one table, and keeps it. -/
theorem confined_twin :
    sharedInside.className ⟨7⟩ = activityName ∧ sharedInside.className ⟨5⟩ = activityName ∧
    (sharedInside.ownEntry ⟨0⟩ ⟨7⟩).isSome = true ∧
    (sharedInside.classes.get ⟨5⟩).table ≠ (shared.world.classes.get ⟨5⟩).table ∧
    sharedInside.Bystander ⟨7⟩ ∧ shared.world.Free ⟨7⟩ ∧
    (shared.world.classes.get ⟨7⟩).table = (sharedInside.classes.get ⟨7⟩).table ∧
    shared.world.tableOf ⟨7⟩ = sharedInside.tableOf ⟨7⟩ := by
  have hreg : sharedInside.Registered ⟨1⟩ ⟨7⟩ := by decide +kernel
  have hfree : sharedInside.Free ⟨7⟩ := by decide +kernel
  have hmem := List.mem_cons_of_mem shared.world mem_sharedInside
  obtain ⟨hlater, hall⟩ := Reached.confined uses_body reached_shared
  obtain ⟨-, hkept⟩ := List.rel_of_pairwise_cons hlater mem_sharedInside ⟨1⟩ ⟨7⟩ hreg
  obtain ⟨hfree', htable, htableOf, -⟩ := hkept hfree
  exact ⟨by decide +kernel, by decide +kernel, by decide +kernel, by decide +kernel,
    (hall sharedInside hmem).1 ⟨1⟩ ⟨7⟩ hreg hfree, hfree', htable, htableOf⟩

end Demo

end Interception
