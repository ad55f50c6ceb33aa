/-
Classes defined while windows are open.

A class is linked from the table its superclass has at that moment.  Inside a class-wide window
that is not the table patching gave the superclass but the one it had before, and the class is
linked only once: what it gets then it keeps when the window has been closed and the superclass
has its own table again.  So it inherits the trampolines of a patched superclass exactly if the
superclass had its own table at that moment, which is so outside all windows, and also inside
one, once another on the same class has been opened and closed.  What the trampolines held at
that moment does not matter, since it is only lent.

The condition is on the class directly below the patched one.  Further down every class has the
cell of the one above it.
-/
import Interception.Proofs.Inheritance
import Interception.Proofs.Returns

namespace Interception

variable {β H : Type}

namespace World

variable {w w' x : World β} {v : VmRef} {a c y : ClassRef} {g : RegistryRef} {i k : Nat}
  {r : Resolution} {name : String} {t : CellRef}

/-! ### Further down -/

/-- No class below this one, down to the other, was patched or declares the name. -/
def Unobstructed (w : World β) (c a : ClassRef) (name : String) : Prop :=
  ∀ b ∈ w.lineage c, a ∈ w.ancestors b → w.Unbound b ∧ ¬ w.Declares b name

/-- Only the entries there are matter. -/
instance (w : World β) (c : ClassRef) : Decidable (w.Unbound c) :=
  decidable_of_iff
    (∀ g ∈ w.registries.refs, ∀ i < (w.registries.get g).entries.size,
      ∀ r ∈ (w.entry g i).resolution, r.cls ≠ c)
    ⟨fun h g i r hr => h g (Store.mem_refs.mpr hr.live) i hr.lt_size r hr,
      fun h g _ i _ r hr => h g i r hr⟩

instance (w : World β) (c a : ClassRef) (name : String) : Decidable (w.Unobstructed c a name) :=
  inferInstanceAs (Decidable (∀ b ∈ w.lineage c, a ∈ w.ancestors b →
    w.Unbound b ∧ ¬ (w.classes.get b).declares name = true))

/-- What a definition made has, and every class below it, for what it did not declare. -/
theorem Inherits.methodAt_below (h : x.Inherits) (hx : x.Sound) (hc : x.classes.Live c)
    (hy : y ∈ x.lineage c) (hay : a ∈ x.ancestors y) (hclear : x.Unobstructed c a name)
    (hk : x.slotOf y name = some k) : x.methodAt c k = x.methodAt y k := by
  have hbelow : ∀ b, y ∈ x.ancestors b → a ∈ x.ancestors b := fun b hb =>
    (hx.lineages.nested hb).subset (mem_lineage_of_mem_ancestors hay)
  refine h.methodAt_above hx.lineages hc hy (Or.inl (hclear y hy hay).1)
    (fun b hb hyb => (hclear b hb (hbelow b hyb)).1) hk ?_
  rintro ⟨b, hb, hyb, hd⟩
  exact (hclear b hb (hbelow b hyb)).2 hd

/-! ### What a definition hands down -/

/-- What a superclass had when a class was defined below it, and what the class has now. -/
structure HandsDown (w x : World β) (a y : ClassRef) : Prop where
  /-- A slot with a trampoline is a slot with a trampoline, even if the class was patched
  itself. -/
  trampoline : ∀ {name k t}, w.slotOf a name = some k → ¬ x.Declares y name →
    w.methodAt a k = some t → (w.content t).isTrampoline = true →
    ∃ t', x.methodAt y k = some t' ∧ (x.content t').isTrampoline = true
  /-- Every class from there on has the cell that was in the superclass's table. -/
  cell : ∀ {c name k}, x.classes.Live c → y ∈ x.lineage c → x.Unobstructed c a name →
    w.slotOf a name = some k → x.methodAt c k = w.methodAt a k
  /-- For a listed method that is a trampoline if the superclass had its own table, and only
  then, unless one above it was patched too. -/
  listed : ∀ {c g i r name k}, x.classes.Live c → y ∈ x.lineage c → x.Unobstructed c a name →
    w.Resolves g i r → r.cls = a → w.slotOf a name = some k →
    (w.entry g i).row.intercepts name = true →
    ∃ t, x.methodAt c k = some t ∧
      ((w.classes.get a).table = r.intercepted → (x.content t).isTrampoline = true) ∧
      ((∀ b ∈ x.ancestors a, x.Unbound b) → (x.content t).isTrampoline = true →
        (w.classes.get a).table = r.intercepted)

/-- A class was defined, and at some later moment no window is open. -/
structure Later (w w' x : World β) (v : VmRef) (d : ClassDecl β) (a y : ClassRef) : Prop where
  defined : w.define v d = .ok (y, w')
  super : w.findClass v (d.extends?.getD rootClassName) = some a
  before : w.Sound ∧ w.Swaps
  after : w'.Sound
  sound : x.Sound
  inherits : x.Inherits
  confines : w'.Confines x
  preserves : w'.Preserves x
  /-- What windows had lent is back. -/
  armed : x.Armed
  returns : ∀ m, (w'.content m).isTrampoline = true → (x.content m).isTrampoline = true
  listed : ∀ m, x.Listed m → (x.content m).isTrampoline = true

namespace Later

variable {d : ClassDecl β}

theorem live_super (h : Later w w' x v d a y) : w.classes.Live a :=
  h.before.1.homes.live (h.before.1.homes.of_findClass h.super).1

theorem live_defined (h : Later w w' x v d a y) : w'.classes.Live y :=
  (live_define h.defined y).mpr (Or.inr rfl)

theorem grows (h : Later w w' x v d a y) : w.Grows x :=
  (extends_define h.defined).grows.trans h.preserves.grows

/-- The class was linked from what its superclass had. -/
theorem linked (h : Later w w' x v d a y) : x.ancestors y = w.lineage a ∧
    ∀ {name k}, w.slotOf a name = some k → ¬ x.Declares y name →
      w'.slotOf y name = some k ∧ (x.Unbound y → x.methodAt y k = w.methodAt a k) ∧
      ∀ {g i r}, w'.Resolves g i r → r.cls = y →
        (w'.tables.get r.unpatched)[k]? = w.methodAt a k := by
  have hext := extends_define h.defined
  obtain ⟨s, hs, -, -, habove, hcells⟩ := h.before.1.methodAt_define h.defined
  obtain rfl : s = a := Option.some.inj (hs.symm.trans h.super)
  obtain ⟨-, halike⟩ := h.preserves.grows.classes y h.live_defined
  refine ⟨halike.ancestors.trans habove, fun {name k} hk hno => ?_⟩
  have hno' : ¬ w'.Declares y name := by
    rw [World.Declares, Class.declares, halike.declared] at hno
    exact hno
  obtain ⟨hown, hreplaced⟩ := hcells hk hno'
  have hmem : s ∈ w'.ancestors y := by
    rw [habove]
    exact w.mem_lineage_self s
  have hslot : w'.slotOf s name = some k := by
    rw [World.slotOf, (hext.grows.classes s h.live_super).2.slotOf]
    exact hk
  refine ⟨h.after.lineages.slots hmem hslot, fun hu => ?_, hreplaced⟩
  have hu' : w'.Unbound y := fun g i r hr => hu g i r (h.preserves.grows.resolved hr)
  rw [h.confines.methodAt h.preserves h.after h.live_defined (Or.inl hu), hown hu']

theorem trampoline (h : Later w w' x v d a y) (hk : w.slotOf a name = some k)
    (hno : ¬ x.Declares y name) (ht : w.methodAt a k = some t)
    (htramp : (w.content t).isTrampoline = true) :
    ∃ t', x.methodAt y k = some t' ∧ (x.content t').isTrampoline = true := by
  have hlive : w.cells.Live t := (h.before.1.tabled.copied htramp).live h.before.1.tabled
  have htramp' : (w'.content t).isTrampoline = true := by
    rw [(extends_define h.defined).content hlive]
    exact htramp
  obtain ⟨hslot, hown, hreplaced⟩ := h.linked.2 hk hno
  by_cases hu : x.Unbound y
  · exact ⟨t, (hown hu).trans ht, h.returns t htramp'⟩
  · -- What was linked was copied at once, and a copy of a trampoline is one.
    obtain ⟨g, i, r, hr, hcls⟩ : ∃ g i r, x.Resolves g i r ∧ r.cls = y := by
      by_contra hno
      exact hu fun g i r hr hcls => hno ⟨g, i, r, hr, hcls⟩
    subst hcls
    have hr' := h.confines.newly hr h.live_defined
    have horiginal := (hreplaced hr' rfl).trans ht
    obtain ⟨t', hcell⟩ := (h.after.tabled.intercepted hr').exists_cell hslot
    have hfresh : ¬ w.classes.Live r.cls := fun hold =>
      hold.ne_next (define_enrolls h.defined).1
    have hcopy := (Equips.define h.before.1 h.defined).copies hr' hfresh hcell horiginal
    refine ⟨t', ?_, h.returns t' ?_⟩
    · rw [methodAt, tableOf, h.armed g i r hr,
        h.preserves.grows.table_intercepted h.after.tabled hr']
      exact hcell
    · rw [hcopy]
      exact Row.isTrampoline_copyOf htramp'

theorem cell (h : Later w w' x v d a y) (hc : x.classes.Live c) (hy : y ∈ x.lineage c)
    (hclear : x.Unobstructed c a name) (hk : w.slotOf a name = some k) :
    x.methodAt c k = w.methodAt a k := by
  obtain ⟨habove, hlinked⟩ := h.linked
  have hay : a ∈ x.ancestors y := by
    rw [habove]
    exact w.mem_lineage_self a
  obtain ⟨hu, hno⟩ := hclear y hy hay
  obtain ⟨hslot, hown, -⟩ := hlinked hk hno
  have hslot' : x.slotOf y name = some k := by
    rw [World.slotOf, (h.preserves.grows.classes y h.live_defined).2.slotOf]
    exact hslot
  exact (h.inherits.methodAt_below h.sound hc hy hay hclear hslot').trans (hown hu)

/-- In its own table the superclass has the trampolines, and otherwise none of its own. -/
theorem isTrampoline_listed (h : Later w w' x v d a y) (hr : w.Resolves g i r) (hcls : r.cls = a)
    (hk : w.slotOf a name = some k) (hlisted : (w.entry g i).row.intercepts name = true)
    (ht : w.methodAt a k = some t) :
    ((w.classes.get a).table = r.intercepted → (x.content t).isTrampoline = true) ∧
      ((∀ b ∈ x.ancestors a, x.Unbound b) → (x.content t).isTrampoline = true →
        (w.classes.get a).table = r.intercepted) := by
  subst hcls
  have hg := h.grows
  have hr' : x.Resolves g i r := hg.resolved hr
  refine ⟨fun htable => h.listed t ⟨g, i, r, name, k, hr', ?_, ?_, ?_⟩, fun habove htramp => ?_⟩
  · rw [World.slotOf, (hg.classes _ h.live_super).2.slotOf]
    exact hk
  · rw [hg.rows g i hr.live]
    exact hlisted
  · rw [hg.table_intercepted h.before.1.tabled hr, ← htable]
    exact ht
  · rcases h.before.2.table hr with htable | ⟨htable, -⟩
    · exact htable
    · -- A trampoline that was replaced is one of a class further up.
      obtain ⟨g', i', r', j, hr₁, hj⟩ := h.sound.tabled.copied htramp
      have horiginal : (x.tables.get r.unpatched)[k]? = some t := by
        rw [hg.table_unpatched h.before.1.tabled hr, ← htable]
        exact ht
      exact absurd rfl (habove r'.cls (h.sound.above_unpatched hr' horiginal hr₁ hj) g' i' r' hr₁)

theorem handsDown (h : Later w w' x v d a y) : w.HandsDown x a y where
  trampoline := h.trampoline
  cell := h.cell
  listed {c g i r name k} hc hy hclear hr hcls hk hlisted := by
    obtain ⟨t, ht⟩ := h.before.1.methodAt h.live_super hk
    exact ⟨t, (h.cell hc hy hclear hk).trans ht,
      h.isTrampoline_listed hr hcls hk hlisted ht⟩

end Later

end World

/-! ### Calls -/

/-- A call that finds a trampoline enters the receiver's handler, where windows are
class-wide. -/
theorem invokeVirtual_intercepted {host : Host β H} {s : State β H} {v : VmRef}
    {this handler : ObjectRef} {name : String} {k n : Nat} {t : CellRef} {args : List Value}
    (hk : s.world.slotOf (s.world.classOf this) name = some k)
    (ht : s.world.methodAt (s.world.classOf this) k = some t)
    (htramp : (s.world.content t).isTrampoline = true)
    (hmode : (s.world.coreOf v).mode = .classWide)
    (hh : s.world.handlerOf v (s.world.coreOf v) this = some handler)
    (hd : s.thread.depth < s.world.maxDepth v) :
    invokeVirtual (execute host (n + 1)) v this name args s =
      inFrame host v t this args
        (invokeHandler host (execute host n) v (s.world.coreOf v) handler t this args) s := by
  obtain ⟨o, ho⟩ := Option.isSome_iff_exists.mp htramp
  rw [invokeVirtual_eq hk ht, execute_trampoline host hd ho]
  refine inFrame_congr host ?_
  refine invokeTrampoline_handled (s := s.enter host v t this args) host _ ho (fun hw => ?_) hh
  rw [hmode] at hw
  cases hw.1

section Reached

variable {host : Host β H} {s : State β (Logged β H)}

/-- **A subclass inherits the trampolines that its superclass has when it is defined.**  In a
run of checked bodies, on one machine or where rows are not stacked, patched classes have
trampolines for the methods listed for them whenever no window is open.  A class defined on the
way, in whatever body and with whatever windows open, keeps what it was linked with: if the slot
held a trampoline then, it holds one whenever no window is open later; every class from it down
has the superclass's cell of that moment, as long as none of them was patched or declares the
name; and if the superclass was patched, that is a trampoline for a listed method exactly if the
superclass had the table patching gave it, and not the one a class-wide window had put in its
place.  A class-wide call that finds a trampoline enters the receiver's handler. -/
theorem Reached.inherits_current
    (hb : ∀ b v this args, (host.body b v this args).Uses fun op => op.IsChecked = true)
    (hs : Reached host (fun op => op.IsChecked = true) s) (hl : s.world.Legible) :
    (∀ x ∈ s.trail.worlds, x.Windowless → ∀ g i r name k, x.Resolves g i r →
      x.slotOf r.cls name = some k → (x.entry g i).row.intercepts name = true →
      ∃ t, x.methodAt r.cls k = some t ∧ (x.content t).isTrampoline = true) ∧
    (s.trail.worlds.Pairwise fun x w' => x.Windowless →
      ∀ s₀, Reached host (fun op => op.IsChecked = true) s₀ → ∀ w ∈ s₀.trail.worlds,
      ∀ v d y, w.define v d = .ok (y, w') →
      ∃ a, w.findClass v (d.extends?.getD rootClassName) = some a ∧
        x.ancestors y = w.lineage a ∧ w.HandsDown x a y) ∧
    ∀ x ∈ s.trail.worlds, ∀ th h v this handler name k t args n,
      x.slotOf (x.classOf this) name = some k → x.methodAt (x.classOf this) k = some t →
      (x.content t).isTrampoline = true → (x.coreOf v).mode = .classWide →
      x.handlerOf v (x.coreOf v) this = some handler → th.depth < x.maxDepth v →
      invokeVirtual (execute host (n + 1)) v this name args ⟨x, th, h⟩ =
        inFrame host v t this args
          (invokeHandler host (execute host n) v (x.coreOf v) handler t this args) ⟨x, th, h⟩ := by
  have hb' := fun b v this args => (hb b v this args).mono Op.IsChecked.isOrdinary
  have hs' := hs.mono Op.IsChecked.isOrdinary
  have hreturning := hs.returning hb
  have hinherits := upheld_inherits.ordered hb' hs'
  have hlasting := hs'.lasting hb'
  have hlegible : ∀ x ∈ s.trail.worlds, x.Legible := fun x hx =>
    hl.of_grows (hlasting.sound x hx) (hlasting.preserves hx).grows
  refine ⟨fun x hx hw g i r name k hr hk hlisted => ?_, ?_,
    fun x _ th h v this handler name k t args n hk ht htramp hmode hh hd =>
      invokeVirtual_intercepted (s := ⟨x, th, h⟩) hk ht htramp hmode hh hd⟩
  · obtain ⟨hswaps, hall⟩ := hreturning.each x hx
    obtain ⟨t, ht⟩ := ((hlasting.sound x hx).tabled.intercepted hr).exists_cell hk
    refine ⟨t, ?_, hall (hlegible x hx) hw t ⟨g, i, r, name, k, hr, hk, hlisted, ht⟩⟩
    rw [World.methodAt, World.tableOf, hswaps.armed hw g i r hr]
    exact ht
  · have hpairs := hreturning.ordered.and hinherits.ordered
    refine hpairs.imp_of_mem fun {x w'} hx hw' hpair hw s₀ hs₀ w hw₀ v d y hd => ?_
    obtain ⟨hreturns, -, hconfines, hpreserves⟩ := hpair
    obtain ⟨hswaps, hall⟩ := hreturning.each x hx
    have hsound := (hs₀.mono Op.IsChecked.isOrdinary).lasting hb' |>.sound w hw₀
    obtain ⟨a, ha, -⟩ := hsound.methodAt_define hd
    have hlater : World.Later w w' x v d a y :=
      { defined := hd
        super := ha
        before := ⟨hsound, ((hs₀.returning hb).each w hw₀).1⟩
        after := hlasting.sound w' hw'
        sound := hlasting.sound x hx
        inherits := (hinherits.each x hx).2
        confines := hconfines
        preserves := hpreserves
        armed := hswaps.armed hw
        returns := hreturns hw
        listed := hall (hlegible x hx) hw }
    exact ⟨a, ha, hlater.linked.1, hlater.handsDown⟩

end Reached

/-! ### The demonstration -/

namespace Demo

/-- The name of another class below the activity's. -/
def otherName : String := "App.OtherActivity"

def otherDecl : ClassDecl Body := { name := otherName, extends? := some activityName }

/-- The state after the activity was called, one class below it defined inside the window, and
the other one afterwards. -/
def afterwards : State Body (Logged Body Tally) :=
  ((Program.perform (.define ⟨0⟩ otherDecl)).lift.start lateHost.logged (late .classWide)).2

theorem reached_afterwards : Reached lateHost (fun op => op.IsChecked = true) afterwards :=
  (reached_late rfl rfl rfl .classWide).run (Program.perform (.define ⟨0⟩ otherDecl))
    (.perform rfl)

/-- The worlds around both definitions. -/
def around : List (World Body) := afterwards.host.2.map Moment.world

theorem mem_getD {α : Type} {l : List α} {n : Nat} (h : n < l.length) (d : α) :
    l.getD n d ∈ l := by
  rw [List.getD_eq_getElem?_getD, List.getElem?_eq_getElem h]
  exact List.getElem_mem h

/-- The class defined inside the window has the activity's method in the slot, and the one
defined afterwards has the trampoline, as the activity itself has again. -/
theorem inherits_afterwards :
    (∃ t, afterwards.world.methodAt ⟨3⟩ 0 = some t ∧
      (afterwards.world.content t).isTrampoline = true) ∧
    (∃ t, afterwards.world.methodAt ⟨4⟩ 0 = some t ∧
      ¬ (afterwards.world.content t).isTrampoline = true) ∧
    ∃ t, afterwards.world.methodAt ⟨5⟩ 0 = some t ∧
      (afterwards.world.content t).isTrampoline = true := by
  have hw : afterwards.world.Windowless := by decide +kernel
  have hlength : around.length = 15 := by decide +kernel
  have hmem : ∀ {n}, n < 15 → around.getD n {} ∈ around := fun hn =>
    mem_getD (hlength ▸ hn) {}
  have hlive : afterwards.world.classes.Live ⟨4⟩ ∧ afterwards.world.classes.Live ⟨5⟩ := by
    decide +kernel
  obtain ⟨hpatched, hlater, -⟩ := Reached.inherits_current (uses_lateHost rfl rfl)
    reached_afterwards (Or.inr (by decide +kernel))
  have hdown : ∀ {n n' d y}, n < 15 → n' < 15 →
      (around.getD n {}).define ⟨0⟩ d = .ok (y, around.getD n' {}) →
      (around.getD n {}).findClass ⟨0⟩ (d.extends?.getD rootClassName) = some ⟨3⟩ →
      (around.getD n {}).HandsDown afterwards.world ⟨3⟩ y := fun hn hn' hdefine hsuper => by
    obtain ⟨a, ha, -, hdown⟩ := List.rel_of_pairwise_cons hlater (hmem hn') hw afterwards
      reached_afterwards _ (List.mem_cons_of_mem _ (hmem hn)) ⟨0⟩ _ _ hdefine
    obtain rfl := Option.some.inj (hsuper.symm.trans ha)
    exact hdown
  refine ⟨?_, ?_, ?_⟩
  · have hres : afterwards.world.Resolves ⟨0⟩ 0 (activityResolution afterwards.world) := by
      decide +kernel
    have hcls : (activityResolution afterwards.world).cls = ⟨3⟩ := by decide +kernel
    rw [← hcls]
    exact hpatched afterwards.world List.mem_cons_self hw ⟨0⟩ 0 _ methodName 0 hres
      (by decide +kernel) (by decide +kernel)
  · have hdefine : (around.getD 8 {}).define ⟨0⟩ subactivityDecl =
        .ok (⟨4⟩, around.getD 7 {}) := by
      with_unfolding_all rfl
    have hres : (around.getD 8 {}).Resolves ⟨0⟩ 0 (activityResolution (around.getD 8 {})) := by
      decide +kernel
    have hslot : (around.getD 8 {}).slotOf ⟨3⟩ methodName = some 0 := by decide +kernel
    obtain ⟨t, ht, -, htable⟩ := (hdown (by decide) (by decide) hdefine
      (by decide +kernel)).listed hlive.1 (by decide +kernel) (by decide +kernel) hres
      (by decide +kernel) hslot (by decide +kernel)
    exact ⟨t, ht, fun htramp => absurd (htable (by decide +kernel) htramp) (by decide +kernel)⟩
  · have hdefine : (around.getD 1 {}).define ⟨0⟩ otherDecl = .ok (⟨5⟩, around.getD 0 {}) := by
      with_unfolding_all rfl
    have hres : (around.getD 1 {}).Resolves ⟨0⟩ 0 (activityResolution (around.getD 1 {})) := by
      decide +kernel
    have hslot : (around.getD 1 {}).slotOf ⟨3⟩ methodName = some 0 := by decide +kernel
    obtain ⟨t, ht, htable, -⟩ := (hdown (by decide) (by decide) hdefine
      (by decide +kernel)).listed hlive.2 (by decide +kernel) (by decide +kernel) hres
      (by decide +kernel) hslot (by decide +kernel)
    exact ⟨t, ht, htable (by decide +kernel)⟩

/-- An instance of the class that was defined while the activity was called, called itself. -/
def calling (v : VmRef) : Program Body Tally Value := do
  let o ← Program.perform (.allocate v ⟨4⟩)
  Program.perform (.callVirtual v o methodName [])

/-- The state after that. -/
def called (mode : SwapMode) : State Body (Logged Body Tally) :=
  ((calling ⟨0⟩).lift.start lateHost.logged (late mode)).2

/-- In class-wide mode the class defined while the activity's handler runs does not inherit the
activity's trampoline.  No window is open any more, the row lists the method, and neither class
below the activity's declares it; still its slot holds the method itself, and a call does not
enter the handler, as it does in per-call mode. -/
theorem missed_late :
    Reached lateHost (fun op => op.IsChecked = true) (late .classWide) ∧
    ((late .classWide).world.coreOf ⟨0⟩).mode = .classWide ∧
    (∃ w ∈ (late .classWide).trail.worlds, ∃ w' ∈ (late .classWide).trail.worlds,
      w.define ⟨0⟩ subactivityDecl = .ok (⟨4⟩, w') ∧ 0 < (w.entry ⟨0⟩ 0).openWindows) ∧
    (late .classWide).world.Windowless ∧ (late .classWide).world.Unstacked ∧
    (∃ r, (late .classWide).world.Resolves ⟨0⟩ 0 r ∧
      (late .classWide).world.ancestors ⟨4⟩ = r.cls :: (late .classWide).world.ancestors r.cls ∧
      ((late .classWide).world.entry ⟨0⟩ 0).row.intercepts methodName = true ∧
      (late .classWide).world.slotOf r.cls methodName = some 0 ∧
      ¬ (late .classWide).world.Overridden ⟨4⟩ r.cls methodName) ∧
    (∃ t, (late .classWide).world.methodAt ⟨4⟩ 0 = some t ∧
      ((late .classWide).world.content t).isTrampoline = false) ∧
    (late .classWide).host.1 = { handlerEntries := 1, methodRuns := 1 } ∧
    (called .classWide).host.1 = { handlerEntries := 1, methodRuns := 2 } ∧
    (called .perCall).host.1 = { handlerEntries := 2, methodRuns := 2 } := by
  have hlength : 8 < (late .classWide).trail.worlds.length := by decide +kernel
  have hmem : ∀ {n}, n ≤ 8 → (late .classWide).trail.worlds.getD n {} ∈
      (late .classWide).trail.worlds := fun hn => mem_getD (Nat.lt_of_le_of_lt hn hlength) {}
  have hdefine : ((late .classWide).trail.worlds.getD 8 {}).define ⟨0⟩ subactivityDecl =
      .ok (⟨4⟩, (late .classWide).trail.worlds.getD 7 {}) := by
    with_unfolding_all rfl
  have hres : (late .classWide).world.Resolves ⟨0⟩ 0
      (activityResolution (late .classWide).world) := by decide +kernel
  refine ⟨reached_late rfl rfl rfl .classWide, by decide +kernel,
    ⟨_, hmem (Nat.le_refl 8), _, hmem (by decide), hdefine, by decide +kernel⟩,
    by decide +kernel, by decide +kernel, ⟨_, hres, by decide +kernel, by decide +kernel,
      by decide +kernel, by decide +kernel⟩, ⟨⟨1⟩, by decide +kernel, by decide +kernel⟩,
    by decide +kernel, by decide +kernel, by decide +kernel⟩

end Demo

end Interception
