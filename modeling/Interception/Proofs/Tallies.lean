/-
What one call of the demonstration counts.

A window that is closed again has counted one call on its entry, and it has put everything else
back, in either mode.  The handler of the demonstration counts its entry and calls through; the
method counts its run and does nothing else.  So between the opening and the closing of the
window the world does not change at all, and the state after an intercepted call is known
exactly: one entry, one run, one call on the entry, and the thread and the rest of the world as
they were.  This is so on every machine where an object is bound to such a handler and the method
is patched once.
-/
import Interception.Proofs.Accounting

namespace Interception

variable {β : Type}

/-! ### A window that is closed again -/

/-- One more window was opened and closed on the entry. -/
def Entry.called (e : Entry) : Entry := { e with calls := e.calls + 1 }

/-- A change that changes nothing. -/
theorem Store.modify_eq_self {k : Kind} {α : Type} [Inhabited α] {s : Store k α} {r : Ref k}
    {f : α → α} (hlive : s.Live r) (h : f (s.get r) = s.get r) : s.modify r f = s := by
  have hlt : r.index < s.items.size := hlive
  rw [Store.get, Array.getD_eq_getD_getElem?, Array.getElem?_eq_getElem hlt, Option.getD_some] at h
  refine congrArg Store.mk (Array.ext (Array.size_modify ..) fun j hj hj' => ?_)
  rw [Array.getElem_modify]
  split
  · rename_i hji
    subst hji
    exact h
  · rfl

namespace World

variable {w : World β} {v : VmRef} {core : Core} {this : ObjectRef} {i : Nat} {r : Resolution}
  {t : CellRef}

theorem modifyEntry_modifyEntry (w : World β) (g : RegistryRef) (i : Nat) (f f' : Entry → Entry) :
    (w.modifyEntry g i f).modifyEntry g i f' = w.modifyEntry g i (f' ∘ f) := by
  have hcompose : (fun x => Registry.modifyEntry x i f') ∘ (fun x => Registry.modifyEntry x i f) =
      fun x => Registry.modifyEntry x i (f' ∘ f) := by
    funext x
    simp only [Function.comp_apply, Registry.modifyEntry, Registry.mk.injEq, and_true]
    refine Array.ext' ?_
    rw [Array.toList_modify, Array.toList_modify, Array.toList_modify, List.modify_modify_eq]
  simp only [modifyEntry, Store.modify_modify, hcompose]

/-- Putting a class's table and a cell's content back undoes taking them away. -/
theorem rearm_disarm (hcls : w.classes.Live r.cls) (hcell : w.cells.Live t)
    (harmed : (w.classes.get r.cls).table = r.intercepted) :
    (w.disarm r t).rearm r t (w.content t) = w := by
  have hclasses : (w.classes.modify r.cls fun k => { k with table := r.unpatched }).modify r.cls
      (fun k => { k with table := r.intercepted }) = w.classes := by
    rw [Store.modify_modify]
    refine Store.modify_eq_self hcls ?_
    rw [← harmed]
    rfl
  have hcells : ∀ d, (w.cells.set t d).set t (w.content t) = w.cells := fun d => by
    rw [Store.set, Store.set, Store.modify_modify]
    exact Store.modify_eq_self hcell rfl
  have hcells' : w.cells.set t (w.content t) = w.cells := Store.modify_eq_self hcell rfl
  simp only [disarm, rearm, install, overwrite]
  split
  · rw [hclasses, hcells]
  · rw [hclasses, hcells']

/-- **A window that is closed at once has counted one call and changed nothing else.** -/
theorem closeWindow_openWindow (hp : w.isProxyInstance v this = false)
    (hr : w.interceptionOf core.registry (w.classOf this) = some (i, r))
    (hcls : w.classes.Live r.cls) (hcell : w.cells.Live t)
    (harmed : (w.classes.get r.cls).table = r.intercepted) (th : Thread) :
    (w.openWindow th v core this t).2.1.closeWindow (w.openWindow th v core this t).2.2
      (w.openWindow th v core this t).1 = (w.modifyEntry core.registry i Entry.called, th) := by
  have hres := (interceptionOf_eq_some.mp hr).2.1
  cases hmode : core.mode with
  | perCall =>
    rw [openWindow_perCall hp hr hmode]
    simp only [closeWindow_perCall, modifyEntry_modifyEntry, List.erase_cons_head]
    rfl
  | classWide =>
    rw [openWindow_classWide hp hr hmode]
    have hopened : ((w.disarm r t).modifyEntry core.registry i Entry.windowOpened).Resolves
        core.registry i r :=
      ((shifts_disarm w r t).trans (shifts_windowOpened _ _ _)).resolves.mpr hres
    have hrearm : ((w.disarm r t).modifyEntry core.registry i Entry.windowOpened).rearm r t
        (w.content t) = w.modifyEntry core.registry i Entry.windowOpened := by
      have hback : ((w.disarm r t).modifyEntry core.registry i Entry.windowOpened).rearm r t
          (w.content t) = ((w.disarm r t).rearm r t (w.content t)).modifyEntry core.registry i
            Entry.windowOpened := rfl
      rw [hback, rearm_disarm hcls hcell harmed]
    rw [closeWindow_classWide _ _ _ _ _ _ hopened, hrearm, modifyEntry_modifyEntry]
    rfl

end World

namespace Demo

section Calls

variable {s : State Body Tally} {v : VmRef} {n : Nat} {this handler : ObjectRef}
  {args : List Value} {t o inv : CellRef} {i : Nat} {r : Resolution}

/-- A frame of the method counts a run. -/
theorem execute_onResume (hcode : (s.world.content o).code = .native .onResume)
    (hd : s.thread.depth < s.world.maxDepth v) :
    execute host (n + 1) v o this args s =
      (.value .null, { s with host := { s.host with methodRuns := s.host.methodRuns + 1 } }) := by
  have hcode' : ((s.enter host v o this args).world.content o).code = .native .onResume := hcode
  rw [execute_admitted host hd, runCell_native _ _ hcode']
  rfl

/-- A frame of the handler counts an entry and calls through. -/
theorem execute_invoke {x : Value} {h : Tally}
    (hcode : (s.world.content inv).code = .native .invoke)
    (hreceiver : s.world.checkReceiver this (s.world.content t) = .ok ())
    (haccess : s.world.checkAccess v (some (s.world.classOf handler)) (s.world.content t) = .ok ())
    (hd : s.thread.depth < s.world.maxDepth v)
    (hcall : execute host n v t this args { s.deepen with
        host := { s.host with handlerEntries := s.host.handlerEntries + 1 } } =
      (.value x, { s.deepen with host := h })) :
    execute host (n + 1) v inv handler (.object this :: .method t :: args) s =
      (.value x, { s with host := h }) := by
  let op : Op Body := .callMethod v (some (s.world.classOf handler)) t this args
  let u : State Body Tally :=
    { s.deepen with host := { s.host with handlerEntries := s.host.handlerEntries + 1 } }
  have hcode' : ((s.enter host v inv handler (.object this :: .method t :: args)).world.content
      inv).code = .native .invoke := hcode
  have hop : op.run host (execute host n) u = execute host n v t this args u :=
    invokeMethod_eq hreceiver haccess
  have hbody : (host.body .invoke v handler (.object this :: .method t :: args)).run host
      (execute host n) (s.enter host v inv handler (.object this :: .method t :: args)) =
        answered host op (op.run host (execute host n) u) := run_perform
  rw [execute_admitted host hd, runCell_native _ _ hcode', hbody, hop, hcall]
  rfl

/-- Inside the window of a call the trampoline leads to one run of the method. -/
theorem execute_through {w : World Body} {th : Thread} {k : Nat} {u : State Body Tally}
    (hw : w.Sound) (hu : w.Unstacked) (hf : w.Faithful) (hbound : w.Bound v this i r handler)
    (hcopy : w.CopyAt (w.classOf this) k t o (w.coreOf v).registry i r)
    (ht : (w.content t).isTrampoline = true)
    (hcode : (w.content o).code = .native .onResume)
    (hworld : u.world = (w.openWindow th v (w.coreOf v) this t).2.1)
    (hwindows : u.thread.windows = (w.openWindow th v (w.coreOf v) this t).2.2.windows)
    (hd : u.thread.depth + 1 < u.world.maxDepth v) :
    execute host (n + 2) v t this args u =
      (.value .null, { u with host := { u.host with methodRuns := u.host.methodRuns + 1 } }) := by
  have hheld := content_inWindow hw hu hf hbound hcopy ht th
  rw [← hworld] at hheld
  cases hmode : (w.coreOf v).mode with
  | perCall =>
    rw [hmode] at hheld
    rw [World.openWindow_perCall hbound.ordinary hbound.row hmode] at hworld hwindows
    have hcore : u.world.coreOf v = w.coreOf v := by rw [hworld]; rfl
    have hnoted : u.thread.inWindow t this = true := by
      rw [Thread.inWindow, hwindows]
      simp
    have hreplaced : (u.world.content t).replaced? = some o := by rw [hheld]; rfl
    have hcode' : ((u.enter host v t this args).world.content o).code = .native .onResume := by
      show (u.world.content o).code = _
      rw [hworld]
      exact hcode
    rw [execute_trampoline host (by omega) hreplaced]
    have hinner : invokeTrampoline host (execute host (n + 1)) v (u.world.coreOf v) t this args
        (u.enter host v t this args) =
          execute host (n + 1) v o this args (u.enter host v t this args) :=
      invokeTrampoline_inWindow _ _ hreplaced ⟨by rw [hcore, hmode], hnoted⟩
    rw [inFrame, hinner, execute_onResume hcode' hd]
    rfl
  | classWide =>
    rw [hmode] at hheld
    have hheld' : u.world.content t = w.content o := hheld
    exact execute_onResume (by rw [hheld']; exact hcode) (by omega)

/-- One more entry and one more run. -/
def Tally.called (h : Tally) : Tally := ⟨h.handlerEntries + 1, h.methodRuns + 1⟩

/-- Inside the window the handler counts one entry and one run. -/
theorem invokeVirtual_handler {w : World Body} {th : Thread} {name : String} {k l : Nat}
    {x : State Body Tally} (hw : w.Sound) (hu : w.Unstacked) (hf : w.Faithful)
    (hhandler : w.Attended v this i r handler l inv .invoke)
    (hcopy : w.CopyAt (w.classOf this) k t o (w.coreOf v).registry i r)
    (hdeclared : w.declared? (w.classOf this) name k = some (w.content o))
    (ht : (w.content t).isTrampoline = true) (hcode : (w.content o).code = .native .onResume)
    (hworld : x.world = (w.openWindow th v (w.coreOf v) this t).2.1)
    (hthread : x.thread = (w.openWindow th v (w.coreOf v) this t).2.2)
    (hd : th.depth + 3 ≤ w.maxDepth v) :
    invokeVirtual (execute host (n + 3)) v handler handlerMethod
      (.object this :: .method t :: args) x = (.value .null, { x with host := x.host.called }) := by
  have hshifts := World.shifts_openWindow w th v (w.coreOf v) this t
  have hdepth := w.depth_openWindow th v (w.coreOf v) this t
  have hinside : (w.openWindow th v (w.coreOf v) this t).2.1.Attended v this i r handler l inv
      .invoke := hhandler.openWindow hw ht this
  have howner : ((w.openWindow th v (w.coreOf v) this t).2.1.content t).owner =
      (w.content o).owner := by
    rw [content_inWindow hw hu hf hhandler.bound hcopy ht th]
    cases (w.coreOf v).mode <;> rfl
  obtain ⟨hreceiver, haccess⟩ :=
    hshifts.checks (hw.openWindow ht) hcopy.resolves hdeclared howner
  have hwindows : x.thread.windows =
      (w.openWindow th v (w.coreOf v) this t).2.2.windows := by rw [hthread]
  rw [← hworld] at hshifts hinside hreceiver haccess
  rw [← hthread] at hdepth
  have hlimit : x.world.maxDepth v = w.maxDepth v := by
    rw [World.maxDepth, hshifts.vms, World.maxDepth]
  rw [invokeVirtual_eq (by rw [hinside.bound.cls]; exact hinside.handled.slot)
    (by rw [hinside.bound.cls]; exact hinside.handled.cell)]
  refine execute_invoke hinside.handled.code hreceiver
    (by rw [hinside.bound.cls]; exact haccess) (by omega) ?_
  have hroom : x.thread.depth + 1 + 1 < x.world.maxDepth v := by omega
  exact execute_through (u := { x.deepen with
      host := { x.host with handlerEntries := x.host.handlerEntries + 1 } }) hw hu hf
    hhandler.bound hcopy ht hcode hworld hwindows hroom

/-- With the window around it, it also counts one call on the entry. -/
theorem invokeHandler_counts {name : String} {k l : Nat} (args : List Value)
    (hw : s.world.Sound) (hu : s.world.Unstacked) (hf : s.world.Faithful)
    (hhandler : s.world.Attended v this i r handler l inv .invoke)
    (hcopy : s.world.CopyAt (s.world.classOf this) k t o (s.world.coreOf v).registry i r)
    (hdeclared : s.world.declared? (s.world.classOf this) name k = some (s.world.content o))
    (ht : (s.world.content t).isTrampoline = true)
    (hcode : (s.world.content o).code = .native .onResume)
    (harmed : (s.world.classes.get r.cls).table = r.intercepted)
    (hd : s.thread.depth + 3 ≤ s.world.maxDepth v) :
    invokeHandler host (execute host (n + 3)) v (s.world.coreOf v) handler t this args s =
      (.value .null, ⟨s.world.modifyEntry (s.world.coreOf v).registry i Entry.called, s.thread,
        s.host.called⟩) := by
  have hlive : s.world.cells.Live t :=
    (hw.tabled.intercepted hcopy.resolves).live_of_mem hcopy.copy
  have hclose := World.closeWindow_openWindow hhandler.bound.ordinary hhandler.bound.row
    (hw.orderly.live hcopy.resolves) hlive harmed s.thread
  have hcall : invokeVirtual (execute host (n + 3)) v handler handlerMethod
      (.object this :: .method t :: args) (s.begin host v (s.world.coreOf v) this t) =
        (.value .null, { s.begin host v (s.world.coreOf v) this t with host := s.host.called }) :=
    invokeVirtual_handler hw hu hf hhandler hcopy hdeclared ht hcode rfl rfl hd
  rw [invokeHandler_eq, hcall]
  exact congrArg (fun y => (Ending.value Value.null, (⟨y.1, y.2, _⟩ : State Body Tally))) hclose

/-- **An intercepted call counts one entry and one run**, leaves the thread as it was, and has one
more call counted on the row's entry. -/
theorem invokeVirtual_counts {name : String} {k : Nat} (args : List Value) (hw : s.world.Sound)
    (hu : s.world.Unstacked) (hf : s.world.Faithful) (hbound : s.world.Bound v this i r handler)
    (hfree : ∀ a ∈ s.world.lineage r.handlerClass,
      s.world.ownEntry (s.world.coreOf v).registry a = none)
    (hinvoke : s.world.handlerBody? r.handlerClass = some .invoke)
    (harmed : (s.world.classes.get r.cls).table = r.intercepted)
    (hk : s.world.slotOf (s.world.classOf this) name = some k)
    (ht : s.world.methodAt (s.world.classOf this) k = some t)
    (ho : (s.world.content t).replaced? = some o)
    (hcode : (s.world.content o).code = .native .onResume)
    (hout : ¬ ((s.world.coreOf v).mode = .perCall ∧ s.thread.inWindow t this = true))
    (hd : s.thread.depth + 4 ≤ s.world.maxDepth v) :
    invokeVirtual (execute host (n + 4)) v this name args s =
      (.value .null, ⟨s.world.modifyEntry (s.world.coreOf v).registry i Entry.called, s.thread,
        s.host.called⟩) := by
  have hclass := hbound.live hw
  obtain ⟨-, hres, habove⟩ := World.interceptionOf_eq_some.mp hbound.row
  obtain ⟨g', i', r', hcopy⟩ := hw.copyAt_of_replaced hu hf hclass ht ho
  obtain ⟨rfl, rfl, rfl⟩ := hw.patched_once hu hclass hres hcopy.resolves habove hcopy.above
  obtain ⟨l, inv, hhandler⟩ := hbound.attended hw hfree hinvoke
  have ho' : ((s.enter host v t this args).world.content t).replaced? = some o := ho
  have hentered : invokeTrampoline host (execute host (n + 3)) v (s.world.coreOf v) t this args
      (s.enter host v t this args) = invokeHandler host (execute host (n + 3)) v
        (s.world.coreOf v) handler t this args (s.enter host v t this args) :=
    invokeTrampoline_handled _ _ ho' hout hbound.handlerOf
  have hroom : s.thread.depth + 1 + 3 ≤ s.world.maxDepth v := hd
  have hcounts := invokeHandler_counts (s := s.enter host v t this args) (n := n) args
    hw hu hf hhandler hcopy (hcopy.declared hw hu hclass hk ht)
    (Descriptor.isTrampoline_of_replaced? ho) hcode harmed hroom
  rw [invokeVirtual_eq hk ht, execute_trampoline host (by omega) ho, inFrame, hentered]
  exact congrArg (fun y => (y.1, y.2.leave host v t this)) hcounts

end Calls

end Demo

end Interception
