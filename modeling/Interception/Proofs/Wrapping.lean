/-
An intercepted call seen from outside.

With a handler that calls through, an intercepted call runs what is declared and does nothing
else that lasts: the frames are left, the window is closed, and what remains is that the
window was counted.  `Wraps` says this of an act: it runs what a descriptor holds in a state
some frames further down, ends as that ends, and if the thread came back from there as it
went in then so it does from the act.

Frames, windows and handlers each wrap if what is inside them does, and so a call by name
wraps what is declared, at the cost of one frame, two inside the window, or four.
-/
import Interception.Proofs.Routes

namespace Interception

variable {β H : Type}

/-- An act with this outcome runs what the descriptor holds, some frames further down, and
does nothing else but count windows. -/
structure Wraps (host : Host β H) (v : VmRef) (n j : Nat) (d : Descriptor β) (this : ObjectRef)
    (args : List Value) (s : State β H) (out : Ending Value × State β H) : Prop where
  runs : ∃ (cell : CellRef) (u : State β H), u.world.content cell = d ∧
    s.world.Calm u.world ∧ u.thread.depth = s.thread.depth + j ∧
    out.1 = (runCell host (execute host (n - j)) v cell this args u).1 ∧
    ((runCell host (execute host (n - j)) v cell this args u).2.thread = u.thread →
      out.2.thread = s.thread ∧
      (runCell host (execute host (n - j)) v cell this args u).2.world.Calm out.2.world)

namespace Wraps

variable {host : Host β H} {v : VmRef} {n j : Nat} {d : Descriptor β} {this : ObjectRef}
  {args : List Value} {s : State β H}

/-- At the cell itself. -/
theorem here {cell : CellRef} (hcell : s.world.content cell = d) :
    Wraps host v n 0 d this args s (runCell host (execute host n) v cell this args s) where
  runs := ⟨cell, s, hcell, .refl _, rfl, rfl, fun h => ⟨h, .refl _⟩⟩

/-- Steps on the way in and out. -/
theorem around {s' : State β H} {out out' : Ending Value × State β H}
    (h : Wraps host v n j d this args s' out') (hin : s.world.Calm s'.world)
    (hdepth : s'.thread.depth = s.thread.depth) (hout : out.1 = out'.1)
    (hback : out'.2.thread = s'.thread →
      out.2.thread = s.thread ∧ out'.2.world.Calm out.2.world) :
    Wraps host v n j d this args s out where
  runs := by
    obtain ⟨cell, u, hcell, hworld, hu, hend, hleave⟩ := h.runs
    refine ⟨cell, u, hcell, hin.trans hworld, by rw [hu, hdepth], hout.trans hend, ?_⟩
    intro hsame
    obtain ⟨hthread, hcalm⟩ := hleave hsame
    obtain ⟨hthread', hcalm'⟩ := hback hthread
    exact ⟨hthread', hcalm.trans hcalm'⟩

/-- One frame further up. -/
theorem frame {m : CellRef} {o : ObjectRef} {as : List Value}
    (hd : s.thread.depth < s.world.maxDepth v)
    (h : Wraps host v n j d this args (s.enter host v m o as)
      (runCell host (execute host n) v m o as (s.enter host v m o as))) :
    Wraps host v (n + 1) (j + 1) d this args s (execute host (n + 1) v m o as s) where
  runs := by
    obtain ⟨cell, u, hcell, hworld, hu, hend, hleave⟩ := h.runs
    have hroom : n + 1 - (j + 1) = n - j := Nat.add_sub_add_right n 1 j
    have hdepth : (s.enter host v m o as).thread.depth = s.thread.depth + 1 := rfl
    rw [execute_admitted host hd, hroom]
    refine ⟨cell, u, hcell, hworld, by rw [hu, hdepth]; omega, hend, ?_⟩
    intro hsame
    obtain ⟨hthread, hcalm⟩ := hleave hsame
    refine ⟨?_, hcalm⟩
    generalize runCell host (execute host n) v m o as (s.enter host v m o as) = x at hthread ⊢
    show ({ x.2.thread with depth := x.2.thread.depth - 1 } : Thread) = s.thread
    rw [hthread]
    rfl

end Wraps

/-! ### The ways to a descriptor -/

section Ways

variable {host : Host β H} {v : VmRef} {n k : Nat} {d : Descriptor β} {this : ObjectRef}
  {args : List Value} {s : State β H} {t o inv : CellRef} {b : β} {name : String}
  {handler : ObjectRef} {i : Nat} {r : Resolution}

/-- A cell that holds the descriptor. -/
theorem wraps_cell (ht : s.world.content t = d) (hd : s.thread.depth < s.world.maxDepth v) :
    Wraps host v (n + 1) 1 d this args s (execute host (n + 1) v t this args s) :=
  .frame hd (.here (s := s.enter host v t this args) ht)

/-- Inside the window the trampoline runs what it stands for. -/
theorem wraps_noted (hmode : (s.world.coreOf v).mode = .perCall)
    (hnoted : s.thread.inWindow t this = true) (ht : s.world.content t = d.toTrampoline o)
    (ho : s.world.content o = d) (hd : s.thread.depth + 1 < s.world.maxDepth v) :
    Wraps host v (n + 2) 2 d this args s (execute host (n + 2) v t this args s) := by
  refine .frame (Nat.lt_of_succ_lt hd) ?_
  have ht' : (s.world.content t).replaced? = some o := by
    rw [ht]
    rfl
  rw [runCell_inWindow host _ ht' hmode hnoted]
  exact wraps_cell (s := s.enter host v t this args) ho hd

theorem answered_fst {α : Type} (host : Host β H) (op : Op β) (x : Ending α × State β H) :
    (answered host op x).1 = x.1 ∧ (answered host op x).2.thread = x.2.thread ∧
      (answered host op x).2.world = x.2.world := by
  obtain ⟨e, u⟩ := x
  cases e with
  | value a => exact ⟨rfl, rfl, rfl⟩
  | error e => exact ⟨rfl, rfl, rfl⟩
  | panic text => exact ⟨rfl, rfl, rfl⟩
  | endless => exact ⟨rfl, rfl, rfl⟩

/-- A handler that calls through, inside the window. -/
theorem wraps_handler (hmode : (s.world.coreOf v).mode = .perCall)
    (hnoted : s.thread.inWindow t this = true) (ht : s.world.content t = d.toTrampoline o)
    (ho : s.world.content o = d) (hinv : (s.world.content inv).code = .native b)
    (hb : host.CallsThrough b)
    (hreceiver : s.world.checkReceiver this (s.world.content t) = .ok ())
    (haccess : s.world.checkAccess v (some (s.world.classOf handler)) (s.world.content t) =
      .ok ())
    (hd : s.thread.depth + 2 < s.world.maxDepth v) :
    Wraps host v (n + 3) 3 d this args s
      (execute host (n + 3) v inv handler (.object this :: .method t :: args) s) := by
  refine .frame (by omega) ?_
  have hinv' : ((s.enter host v inv handler
      (.object this :: .method t :: args)).world.content inv).code = .native b := hinv
  rw [runCell_native _ _ hinv']
  generalize hs' : s.enter host v inv handler (.object this :: .method t :: args) = s'
  have hworld : s'.world = s.world := by
    rw [← hs']
    rfl
  have hthread : s'.thread = { s.thread with depth := s.thread.depth + 1 } := by
    rw [← hs']
    rfl
  rw [← hworld] at hreceiver haccess
  obtain ⟨update, hbody⟩ := hb v handler this t args
  rw [run_callsThrough hbody hreceiver haccess]
  let u : State β H := { s' with host := update s'.world s'.host }
  obtain ⟨hend, hleft, hsame⟩ := answered_fst host
    (.callMethod v (some (s'.world.classOf handler)) t this args)
    (execute host (n + 2) v t this args u)
  have hinside : Wraps host v (n + 2) 2 d this args u (execute host (n + 2) v t this args u) := by
    refine wraps_noted (o := o) ?_ ?_ ?_ ?_ ?_
    · rw [hworld]
      exact hmode
    · show s'.thread.inWindow t this = true
      rw [hthread]
      exact hnoted
    · rw [hworld]
      exact ht
    · rw [hworld]
      exact ho
    · show s'.thread.depth + 1 < s'.world.maxDepth v
      rw [hthread, hworld]
      exact hd
  refine hinside.around (.refl _) rfl hend ?_
  intro hback
  rw [hleft, hsame]
  exact ⟨hback, .refl _⟩

/-- The window of a call, with the handler inside. -/
theorem wraps_window (hw : s.world.Sound) (hbound : s.world.Bound v this i r handler)
    (hmode : (s.world.coreOf v).mode = .perCall) {l : Nat}
    (hhandled : s.world.HandledBy r.handlerClass l inv b) (hb : host.CallsThrough b)
    (ht : s.world.content t = d.toTrampoline o) (ho : s.world.content o = d)
    (hdeclared : s.world.declared? (s.world.classOf this) name k = some d)
    (hd : s.thread.depth + 2 < s.world.maxDepth v) :
    Wraps host v (n + 3) 3 d this args s
      (invokeHandler host (execute host (n + 3)) v (s.world.coreOf v) handler t this args s) := by
  have hopens := World.openWindow_perCall hbound.ordinary hbound.row hmode s.thread t
  obtain ⟨-, hres, -⟩ := World.interceptionOf_eq_some.mp hbound.row
  have hopen : s.openWindow v (s.world.coreOf v) this t =
      (⟨(s.world.coreOf v).registry, t, this, .perCall i ⟨t, this⟩⟩,
        { s with
          world := s.world.modifyEntry (s.world.coreOf v).registry i Entry.windowOpened
          thread := { s.thread with windows := ⟨t, this⟩ :: s.thread.windows } }) := by
    simp only [State.openWindow, hopens]
  rw [invokeHandler_eq, hopen, State.begin, hopen]
  have hcalm := World.calm_windowOpened s.world (s.world.coreOf v).registry i
  generalize hs' : ({ s with
    world := s.world.modifyEntry (s.world.coreOf v).registry i Entry.windowOpened
    thread := { s.thread with windows := ⟨t, this⟩ :: s.thread.windows } } :
      State β H).notify host (.opened _) = s'
  have hworld : s'.world =
      s.world.modifyEntry (s.world.coreOf v).registry i Entry.windowOpened := by
    rw [← hs']
    rfl
  have hthread : s'.thread = { s.thread with windows := ⟨t, this⟩ :: s.thread.windows } := by
    rw [← hs']
    rfl
  rw [← hworld] at hcalm
  have hclass : s'.world.classOf handler = r.handlerClass := by
    rw [hcalm.classOf]
    exact hbound.cls
  have hinside := hcalm.handledBy hhandled
  have hcall : invokeVirtual (execute host (n + 3)) v handler handlerMethod
      (.object this :: .method t :: args) s' =
      execute host (n + 3) v inv handler (.object this :: .method t :: args) s' :=
    invokeVirtual_eq (by rw [hclass]; exact hinside.slot) (by rw [hclass]; exact hinside.cell)
  have howner : (s'.world.content t).owner = d.owner := by
    rw [hcalm.content, ht]
    rfl
  obtain ⟨hreceiver, haccess⟩ := hcalm.shifts.checks (hcalm.sound hw) hres hdeclared howner
  have hwraps : Wraps host v (n + 3) 3 d this args s'
      (execute host (n + 3) v inv handler (.object this :: .method t :: args) s') := by
    refine wraps_handler (o := o) ?_ ?_ ?_ ?_ hinside.code hb hreceiver ?_ ?_
    · rw [hcalm.coreOf]
      exact hmode
    · rw [hthread, Thread.inWindow]
      simp
    · rw [hcalm.content]
      exact ht
    · rw [hcalm.content]
      exact ho
    · rw [hclass]
      exact haccess
    · rw [hthread, hcalm.maxDepth]
      exact hd
  rw [hcall]
  refine hwraps.around hcalm ?_ rfl ?_
  · rw [hthread]
  intro hback
  refine ⟨?_, World.calm_windowClosed _ _ _⟩
  generalize execute host (n + 3) v inv handler (.object this :: .method t :: args) s' = x
    at hback ⊢
  show ({ x.2.thread with windows := x.2.thread.windows.erase ⟨t, this⟩ } : Thread) = s.thread
  rw [hback, hthread]
  simp

/-- **A call by name wraps what is declared**, at the cost of at most four frames. -/
theorem wraps_call (args : List Value) (hw : s.world.Sound)
    (hmode : (s.world.coreOf v).mode = .perCall) (hb : host.CallsThrough b)
    (hk : s.world.slotOf (s.world.classOf this) name = some k)
    (hdeclared : s.world.declared? (s.world.classOf this) name k = some d)
    (hroute : s.world.Route v (s.world.classOf this) k b d)
    (hbound : ∀ {i r}, (s.world.classes.get (s.world.classOf this)).super? ≠
        some (s.world.vms.get v).proxy →
      s.world.interceptionOf (s.world.coreOf v).registry (s.world.classOf this) = some (i, r) →
      ∃ handler, s.world.Bound v this i r handler)
    (hd : s.thread.depth + 4 ≤ s.world.maxDepth v) :
    ∃ j ≤ 4, Wraps host v (n + 4) j d this args s
      (invokeVirtual (execute host (n + 4)) v this name args s) := by
  cases hroute with
  | direct hcell hholds =>
    refine ⟨1, by omega, ?_⟩
    rw [invokeVirtual_eq hk hcell]
    exact wraps_cell (n := n + 3) hholds (by omega)
  | @handled t o i r l inv hcell hholds horiginal hordinary hrow hhandled =>
    obtain ⟨handler, hhandler⟩ := hbound hordinary hrow
    rw [invokeVirtual_eq hk hcell]
    by_cases hnoted : s.thread.inWindow t this = true
    · refine ⟨2, by omega, ?_⟩
      exact wraps_noted (n := n + 2) hmode hnoted hholds horiginal (by omega)
    · refine ⟨4, by omega, .frame (by omega) ?_⟩
      have ht : (s.world.content t).replaced? = some o := by
        rw [hholds]
        rfl
      rw [runCell_handled host _ ht (fun h => hnoted h.2) hhandler.handlerOf]
      refine wraps_window (s := s.enter host v t this args) hw hhandler hmode hhandled hb hholds
        horiginal hdeclared ?_
      show s.thread.depth + 1 + 2 < s.world.maxDepth v
      omega

end Ways

end Interception
