/-
Dispatch that never changes.

In per-call mode a window is a note on the thread.  So nothing ever writes into a cell, no
class gets another table once it was published, and every copy stays what patching made it.
Calls therefore find, at every moment and for as long as the machines run, what they found
first: a slot for every name that the lineage declares, and in it a cell from which following
originals ends at the nearest declaration, however rows are stacked.
-/
import Interception.Proofs.Chains
import Interception.Proofs.Reentry

namespace Interception

variable {β H : Type}

namespace World

variable {w w' : World β} {v : VmRef} {c : ClassRef}

/-! ### Nothing is written -/

/-- Nothing is lost, and if all machines work per call, then no cell and no class that was
there has changed. -/
structure Preserves (w w' : World β) : Prop where
  grows : w.Grows w'
  cells : w'.PerCall → w.cells.Keeps w'.cells
  classes : w'.PerCall → w.classes.Keeps w'.classes

namespace Preserves

theorem refl (w : World β) : w.Preserves w := ⟨.refl w, fun _ => .refl _, fun _ => .refl _⟩

theorem trans {w'' : World β} (h : w.Preserves w') (h' : w'.Preserves w'') :
    w.Preserves w'' where
  grows := h.grows.trans h'.grows
  cells hp := (h.cells (h'.grows.perCall hp)).trans (h'.cells hp)
  classes hp := (h.classes (h'.grows.perCall hp)).trans (h'.classes hp)

theorem of_extends (h : Extends w.classes.size w w') : w.Preserves w' where
  grows := h.grows
  cells _ := h.cells
  classes _ c hc := ⟨(h.grows.classes c hc).1, h.classes c hc hc⟩

theorem of_shifts (h : w.Shifts w')
    (hsame : w'.PerCall → w'.cells = w.cells ∧ w'.classes = w.classes) : w.Preserves w' where
  grows := h.grows
  cells hp := by
    rw [(hsame hp).1]
    exact .refl _
  classes hp := by
    rw [(hsame hp).2]
    exact .refl _

/-- The tables of classes that were there, with all they hold, are as they were. -/
theorem tableOf (h : w.Preserves w') (hw : w.Sound) (hp : w'.PerCall) (hc : w.classes.Live c) :
    (w'.classes.get c).table = (w.classes.get c).table ∧ w'.tableOf c = w.tableOf c ∧
      ∀ m ∈ w.tableOf c, w'.content m = w.content m := by
  have htable : (w'.classes.get c).table = (w.classes.get c).table := by
    rw [(h.classes hp c hc).2]
  have hfits := hw.tabled.current c hc
  refine ⟨htable, ?_, fun m hm => ?_⟩
  · rw [World.tableOf, htable]
    exact (h.grows.tables _ hfits.live).2
  · obtain ⟨k, hk⟩ := List.mem_iff_getElem?.mp hm
    exact (h.cells hp m (hfits.live_of_mem hk)).2

end Preserves

theorem preserves_openWindow (w : World β) (th : Thread) (v : VmRef) (this : ObjectRef)
    (m : CellRef) : w.Preserves (w.openWindow th v (w.coreOf v) this m).2.1 := by
  have hshift := shifts_openWindow w th v (w.coreOf v) this m
  refine .of_shifts hshift fun hp => ?_
  have hmode := (hshift.grows.perCall hp).mode v
  have hopens := opens_openWindow w th v (w.coreOf v) this m
  generalize w.openWindow th v (w.coreOf v) this m = x at hopens ⊢
  cases hopens with
  | passthrough _ => exact ⟨rfl, rfl⟩
  | perCall _ _ _ => exact ⟨rfl, rfl⟩
  | classWide _ _ hm =>
    rw [hmode] at hm
    cases hm

/-- A guard opened on a machine that works per call closes without a trace. -/
theorem preserves_closeWindow (w : World β) (th : Thread) {g : Guard β}
    (hg : w.PerCall → ∀ i token, g.window ≠ .classWide i token) :
    w.Preserves (w.closeWindow th g).1 := by
  have hshift := shifts_closeWindow w th g
  refine .of_shifts hshift fun hp => ?_
  have hg' := hg (hshift.grows.perCall hp)
  obtain ⟨r, m, o, window⟩ := g
  cases window with
  | passthrough => exact ⟨rfl, rfl⟩
  | perCall i key => exact ⟨rfl, rfl⟩
  | classWide i token => exact absurd rfl (hg' i token)

theorem Exact.of_preserves (he : w.Exact) (hw : w.Sound) (h : w.Preserves w') (hp : w'.PerCall)
    (hres : ∀ {g i r}, w'.Resolves g i r → w.Resolves g i r) : w'.Exact :=
  EachCopy.of_keeps he hw.tabled h.grows (h.cells hp) hres

end World

/-! ### Every moment -/

/-- Each of them is sound, has exact copies if all machines work per call, and preserves the
ones before. -/
structure Trail.Lasting (t : Trail β) : Prop where
  sound : ∀ w ∈ t.worlds, w.Sound
  exact : ∀ w ∈ t.worlds, w.PerCall → w.Exact
  ordered : t.worlds.Pairwise fun later earlier => earlier.Preserves later

namespace Trail.Lasting

variable {t : Trail β}

theorem now (h : t.Lasting) : t.world.Sound ∧ (t.world.PerCall → t.world.Exact) :=
  ⟨h.sound _ List.mem_cons_self, h.exact _ List.mem_cons_self⟩

theorem preserves (h : t.Lasting) {w : World β} (hw : w ∈ t.worlds) : w.Preserves t.world := by
  rcases List.mem_cons.mp hw with rfl | hw
  · exact .refl _
  · exact (List.pairwise_cons.mp h.ordered).1 w hw

end Trail.Lasting

/-- Closing the window that was opened for a handler, whatever happened in between. -/
theorem preserves_close {w x : World β} {v : VmRef} {this handler : ObjectRef}
    (hh : w.handlerOf v (w.coreOf v) this = some handler) (hg : w.Grows x) (th u : Thread)
    (m : CellRef) :
    x.Preserves (x.closeWindow u (w.openWindow th v (w.coreOf v) this m).1).1 := by
  refine World.preserves_closeWindow x u fun hp => ?_
  have hmode := (hg.perCall hp).mode v
  exact (begins_perCall (t := ⟨w, th, []⟩) (m := m) hmode hh).1.noToken

/-- Every step of an ordinary run on machines that work per call leaves everything as it was,
and makes exact copies. -/
theorem upheld_preserves : Upheld (β := β) (fun op => op.IsOrdinary = true)
    (fun w => w.PerCall → w.Exact) World.Preserves where
  ordinary h := h
  start _ := .empty
  refl := .refl _
  trans _ _ _ _ h h' := h.trans h'
  registry {w} rows hw h := by
    have hnew := World.Preserves.of_extends (World.extends_newRegistry w.classes.size w rows)
    exact ⟨fun hp => (h (hnew.grows.perCall hp)).newRegistry hw rows, hnew⟩
  machine {w} options core hw h := by
    have hnew := World.Preserves.of_extends (World.extends_newVmAround w options core)
    refine ⟨fun hp => ?_, hnew⟩
    exact (h (hnew.grows.perCall hp)).newVmAround (fun _ _ _ => rfl) hw options core
  define hw h hd := by
    have hnew := World.Preserves.of_extends (World.extends_define hd)
    exact ⟨fun hp => (h (hnew.grows.perCall hp)).define (fun _ _ _ => rfl) hw hd, hnew⟩
  objects {w w'} hw h hstep := by
    have honly := hstep.onlyObjects
    have hnew : w.Preserves w' := .of_extends (honly.toExtends _)
    refine ⟨fun hp => ?_, hnew⟩
    exact (h (hnew.grows.perCall hp)).of_preserves hw hnew hp honly.turns.resolves
  opening {w th v this m _} hw h _ _ := by
    have hopen := World.preserves_openWindow w th v this m
    have hshift := World.shifts_openWindow w th v (w.coreOf v) this m
    refine ⟨fun hp => ?_, hopen⟩
    exact (h (hopen.grows.perCall hp)).of_preserves hw hopen hp hshift.resolves.mp
  closing {w x th v this m _ u} _ _ _ hh hx h htends _ := by
    have hclose := preserves_close hh htends.grows th u m
    have hshift := World.shifts_closeWindow x u (w.openWindow th v (w.coreOf v) this m).1
    refine ⟨fun hp => ?_, hclose⟩
    exact (h (hclose.grows.perCall hp)).of_preserves hx hclose hp hshift.resolves.mp

section Reached

variable {host : Host β H} {s : State β (Logged β H)}

theorem Reached.lasting
    (hb : ∀ b v this args, (host.body b v this args).Uses fun op => op.IsOrdinary = true)
    (hs : Reached host (fun op => op.IsOrdinary = true) s) : s.trail.Lasting := by
  have h := upheld_preserves.ordered hb hs
  exact ⟨fun w hw => (h.each w hw).1, fun w hw => (h.each w hw).2, h.ordered.imp fun h => h.2⟩

/-- **Dispatch is what the hierarchy declares, and stays that.**  In a run of ordinary bodies
on machines that work per call a class, once it was published, keeps its table, and every
cell in it keeps what it holds.  And at every moment a published class has a slot for exactly
the names its lineage declares, and following originals from the cell in that slot ends at
the last declaration by the nearest class that has one. -/
theorem Reached.dispatches
    (hb : ∀ b v this args, (host.body b v this args).Uses fun op => op.IsOrdinary = true)
    (hs : Reached host (fun op => op.IsOrdinary = true) s) (hmode : s.world.PerCall) :
    (s.trail.worlds.Pairwise fun later earlier => ∀ v c, earlier.Registered v c →
      later.Registered v c ∧ (later.classes.get c).table = (earlier.classes.get c).table ∧
      later.tableOf c = earlier.tableOf c ∧
      ∀ m ∈ earlier.tableOf c, later.content m = earlier.content m) ∧
    ∀ w ∈ s.trail.worlds, ∀ v c, w.Registered v c → ∀ name,
      ((w.slotOf c name).isSome = true ↔ ∃ a ∈ w.lineage c, w.Declares a name) ∧
      ∀ k, w.slotOf c name = some k → ∃ nearer a farther d t n u,
        w.lineage c = nearer ++ a :: farther ∧ (∀ b ∈ nearer, ¬ w.Declares b name) ∧
        lastNamed (w.classes.get a).declared name = some d ∧
        w.methodAt c k = some t ∧ w.EndsAt n t u ∧
        w.content u =
          { name, owner := (w.classes.get a).number, ownerName := w.className a, slot := k
            visibility := d.visibility, code := Code.ofBody? d.body } := by
  have hlasting := hs.lasting hb
  obtain ⟨hnow, -⟩ := List.pairwise_cons.mp hlasting.ordered
  have hpercall : ∀ w ∈ s.trail.worlds, w.PerCall := fun w hw => by
    rcases List.mem_cons.mp hw with rfl | hw
    · exact hmode
    · exact (hnow w hw).grows.perCall hmode
  refine ⟨?_, fun w hw v c hc name => ?_⟩
  · refine hlasting.ordered.imp_of_mem fun {later earlier} hlater hearlier h v c hc => ?_
    have hsound := hlasting.sound earlier hearlier
    exact ⟨hc.of_grows h.grows,
      h.tableOf hsound (hpercall later hlater) (hsound.homes.live hc)⟩
  · have hsound := hlasting.sound w hw
    have hexact := hlasting.exact w hw (hpercall w hw)
    have hlive := hsound.homes.live hc
    refine ⟨hsound.lineages.slotted name hlive, fun k hk => ?_⟩
    obtain ⟨t, ht⟩ := hsound.methodAt hlive hk
    obtain ⟨n, u, hends, hu⟩ := hsound.endsAt hexact hlive hk ht
    rw [World.declared?, Option.map_eq_some_iff] at hu
    obtain ⟨⟨a, d⟩, hd, hu⟩ := hu
    obtain ⟨nearer, farther, hsplit, hnearer, hlast⟩ := World.declaration?_eq_some_iff.mp hd
    refine ⟨nearer, a, farther, d, t, n, u, hsplit, hnearer, hlast, ht, hends, ?_⟩
    rw [← hu, MethodDecl.descriptor, name_of_lastNamed hlast]

end Reached

/-! ### Rows on a lineage -/

namespace Demo

def subactivityName : String := "App.SubActivity"

/-- A class below the activity, with nothing of its own. -/
def subactivityDecl : ClassDecl Body := { name := subactivityName, extends? := some activityName }

/-- The same method intercepted in both classes. -/
def stackedRows : List Row :=
  [⟨activityName, [methodName], handlerName⟩, ⟨subactivityName, [methodName], handlerName⟩]

/-- Define the classes and allocate an instance of the one below. -/
def stacking (v : VmRef) : Program Body Tally ObjectRef := do
  let _ ← Program.perform (.define v handlerDecl)
  let _ ← Program.perform (.define v activityDecl)
  let c ← Program.perform (.define v subactivityDecl)
  Program.perform (.allocate v c)

theorem uses_stacking (v : VmRef) : (stacking v).Uses fun op => op.IsOrdinary = true := by
  refine .bind (.perform rfl) fun _ => .bind (.perform rfl) fun _ => ?_
  exact .bind (.perform rfl) fun c => .perform rfl

/-- The state after that, on a machine set up for it. -/
def stacked (mode : SwapMode) : State Body (Logged Body Tally) :=
  ((stacking ⟨0⟩).lift.start host.logged
    ⟨(World.newVm {} { rows := stackedRows, mode, maxDepth := 32 }).2, {}, ({}, [])⟩).2

theorem reached_stacked (mode : SwapMode) :
    Reached host (fun op => op.IsOrdinary = true) (stacked mode) := by
  have hmachine : Reached host (fun op => op.IsOrdinary = true) _ :=
    .newVm ({} : Tally) { rows := stackedRows, mode, maxDepth := 32 }
  exact hmachine.run (stacking ⟨0⟩) (uses_stacking ⟨0⟩)

/-- The class below has a trampoline before the trampoline it inherits, and behind both is
what the class above declares. -/
theorem dispatches_stacked : ∃ t n u, (stacked .perCall).world.methodAt ⟨4⟩ 0 = some t ∧
    (stacked .perCall).world.EndsAt n t u ∧
    (stacked .perCall).world.content u =
      { name := methodName, owner := 3, ownerName := activityName, slot := 0
        visibility := .derived, code := .native .onResume } := by
  have hclass : (stacked .perCall).world.Registered ⟨0⟩ ⟨4⟩ := by decide +kernel
  have hslot : (stacked .perCall).world.slotOf ⟨4⟩ methodName = some 0 := by decide +kernel
  have hdeclared : ((stacked .perCall).world.declaration? ⟨4⟩ methodName).map
      (fun x => (x.1, x.2.visibility, x.2.body)) =
        some (⟨3⟩, .derived, some .onResume) := by decide +kernel
  have howner : ((stacked .perCall).world.classes.get ⟨3⟩).number = 3 ∧
      (stacked .perCall).world.className ⟨3⟩ = activityName := by decide +kernel
  obtain ⟨-, hall⟩ := Reached.dispatches uses_body (reached_stacked .perCall) (by decide +kernel)
  obtain ⟨-, hfinds⟩ := hall (stacked .perCall).world List.mem_cons_self
    ⟨0⟩ ⟨4⟩ hclass methodName
  obtain ⟨nearer, a, farther, d, t, n, u, hsplit, hnearer, hlast, ht, hends, hu⟩ := hfinds 0 hslot
  rw [World.declaration?_eq_some_iff.mpr ⟨nearer, farther, hsplit, hnearer, hlast⟩] at hdeclared
  obtain ⟨rfl, hvisibility, hbody⟩ : a = ⟨3⟩ ∧ d.visibility = .derived ∧
      d.body = some .onResume := by simpa using hdeclared
  rw [howner.1, howner.2, hvisibility, hbody] at hu
  exact ⟨t, n, u, ht, hends, hu⟩

end Demo

end Interception
