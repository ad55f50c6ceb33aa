/-
One intercepted call.

The documented body of a handler calls the method it stands before, as the handler's
class, on the receiver and the arguments it was given.  With such a handler an intercepted
call is one entry into `invoke` and one run of the original, and costs a fixed number of
frames: one for the trampoline, one for the handler, one for the trampoline again and, where
windows are noted per call, one for the cell that the trampoline stands for.  Where windows
are class-wide the trampoline itself holds the original meanwhile.

`Descends` says this of any act: on its way to running a cell it enters a known path of
frames, it does nothing else that could be seen, and how it ends is how the cell ends; and
if the path is longer than the machine allows, it ends with the overflow where the path
first goes too deep.  A frame, a window and a handler's body each descend if what is inside
them does, which leaves to show what every cell on the way holds.
-/
import Interception.Proofs.Slots

namespace Interception

variable {β H : Type}

/-! ### Frames on record -/

/-- A frame that was entered, with its depth. -/
structure Frame where
  depth : Nat
  vm : VmRef
  cell : CellRef
  receiver : ObjectRef
  args : List Value

/-- The frame entered at a moment. -/
def Moment.frame? (x : Moment β) : Option Frame :=
  match x.event with
  | .entered v m this args => some ⟨x.thread.depth, v, m, this, args⟩
  | _ => none

/-- The frames entered, newest first. -/
def framesOf (log : List (Moment β)) : List Frame := log.filterMap Moment.frame?

/-- An act with this outcome runs a cell that holds `d`, at the end of a path of frames. -/
structure Descends (host : Host β H) (v : VmRef) (n : Nat) (path : List Frame) (cell : CellRef)
    (d : Descriptor β) (this : ObjectRef) (args : List Value) (s : State β (Logged β H))
    (out : Ending Value × State β (Logged β H)) : Prop where
  /-- Within the limit the outcome is that of the cell, run with nothing but the path
  entered before and nothing entered after. -/
  within : s.thread.depth + path.length ≤ s.world.maxDepth v → ∃ inner,
    inner.thread.depth = s.thread.depth + path.length ∧
    inner.world.objects = s.world.objects ∧ inner.world.content cell = d ∧
    framesOf inner.host.2 = path.reverse ++ framesOf s.host.2 ∧
    out.1 = (runCell host.logged (execute host.logged (n - path.length)) v cell this args
      inner).1 ∧
    framesOf out.2.host.2 = framesOf (runCell host.logged
      (execute host.logged (n - path.length)) v cell this args inner).2.host.2
  /-- Beyond it the frames that fit are entered and no others. -/
  beyond : s.world.maxDepth v < s.thread.depth + path.length →
    out.1 = .error (.stackOverflow (s.world.maxDepth v + 1)) ∧
    framesOf out.2.host.2 =
      (path.take (s.world.maxDepth v - s.thread.depth)).reverse ++ framesOf s.host.2

namespace Descends

variable {host : Host β H} {v : VmRef} {n : Nat} {path : List Frame} {cell : CellRef}
  {d : Descriptor β} {this : ObjectRef} {args : List Value} {s : State β (Logged β H)}

/-- At the end of the path. -/
theorem here (hd : s.thread.depth ≤ s.world.maxDepth v) (hcell : s.world.content cell = d) :
    Descends host v n [] cell d this args s
      (runCell host.logged (execute host.logged n) v cell this args s) where
  within _ := ⟨s, rfl, rfl, hcell, rfl, rfl, rfl⟩
  beyond hover := by
    have hover' : s.world.maxDepth v < s.thread.depth := hover
    omega

/-- Steps on the way in and out that enter no frame. -/
theorem around {s' : State β (Logged β H)} {out out' : Ending Value × State β (Logged β H)}
    (h : Descends host v n path cell d this args s' out')
    (hdepth : s'.thread.depth = s.thread.depth)
    (hlimit : s'.world.maxDepth v = s.world.maxDepth v)
    (hobjects : s'.world.objects = s.world.objects)
    (hin : framesOf s'.host.2 = framesOf s.host.2) (hout : out.1 = out'.1)
    (hback : framesOf out.2.host.2 = framesOf out'.2.host.2) :
    Descends host v n path cell d this args s out where
  within hlt := by
    rw [← hdepth, ← hlimit] at hlt
    obtain ⟨inner, h₁, h₂, h₃, h₄, h₅, h₆⟩ := h.within hlt
    exact ⟨inner, h₁.trans (by rw [hdepth]), h₂.trans hobjects, h₃, by rw [h₄, hin],
      hout.trans h₅, hback.trans h₆⟩
  beyond hlt := by
    rw [← hdepth, ← hlimit] at hlt
    obtain ⟨h₁, h₂⟩ := h.beyond hlt
    rw [← hdepth, ← hlimit, ← hin]
    exact ⟨hout.trans h₁, hback.trans h₂⟩

/-- One frame further up. -/
theorem frame {m : CellRef} {o : ObjectRef} {as : List Value}
    (hd : s.thread.depth ≤ s.world.maxDepth v) (hn : s.world.maxDepth v ≤ s.thread.depth + n)
    (h : ∀ n', n = n' + 1 → s.thread.depth < s.world.maxDepth v →
      Descends host v n' path cell d this args (s.enter host.logged v m o as)
        (runCell host.logged (execute host.logged n') v m o as (s.enter host.logged v m o as))) :
    Descends host v n (⟨s.thread.depth + 1, v, m, o, as⟩ :: path) cell d this args s
      (execute host.logged n v m o as s) := by
  have hframe : framesOf (s.enter host.logged v m o as).host.2 =
      ⟨s.thread.depth + 1, v, m, o, as⟩ :: framesOf s.host.2 := rfl
  have hdepth : (s.enter host.logged v m o as).thread.depth = s.thread.depth + 1 := rfl
  have hlimit : (s.enter host.logged v m o as).world.maxDepth v = s.world.maxDepth v := rfl
  by_cases hlt : s.thread.depth < s.world.maxDepth v
  · obtain ⟨n', rfl⟩ : ∃ n', n = n' + 1 := ⟨n - 1, by omega⟩
    have hsub := h n' rfl hlt
    rw [execute_admitted host.logged hlt]
    refine ⟨fun hle => ?_, fun hover => ?_⟩
    · rw [List.length_cons] at hle
      obtain ⟨inner, h₁, h₂, h₃, h₄, h₅, h₆⟩ :=
        hsub.within (by rw [hdepth, hlimit]; omega)
      have hroom : n' + 1 - (path.length + 1) = n' - path.length := by omega
      rw [List.length_cons, hroom]
      refine ⟨inner, ?_, h₂, h₃, ?_, h₅, h₆⟩
      · rw [h₁, hdepth]
        omega
      · rw [h₄, hframe, List.reverse_cons, List.append_assoc, List.singleton_append]
    · rw [List.length_cons] at hover
      obtain ⟨h₁, h₂⟩ := hsub.beyond (by rw [hdepth, hlimit]; omega)
      have htake : s.world.maxDepth v - s.thread.depth =
          s.world.maxDepth v - (s.thread.depth + 1) + 1 := by omega
      rw [hdepth, hlimit, hframe] at h₂
      refine ⟨h₁, h₂.trans ?_⟩
      rw [htake, List.take_succ_cons, List.reverse_cons, List.append_assoc,
        List.singleton_append]
  · have hrefused : s.world.maxDepth v < s.thread.depth + 1 := by omega
    have hsame : s.thread.depth = s.world.maxDepth v := by omega
    rw [execute_refused host.logged hrefused]
    refine ⟨fun hle => ?_, fun _ => ⟨?_, ?_⟩⟩
    · rw [List.length_cons] at hle
      omega
    · show Ending.error (.stackOverflow (s.thread.depth + 1)) = _
      rw [hsame]
    · rw [hsame, Nat.sub_self]
      rfl

end Descends

/-! ### Handlers that call through -/

/-- The documented body of handlers, whatever it counts on the way: with a receiver and a
method before the other arguments, call the method on the receiver with those, as the class
of the handler. -/
def Host.CallsThrough (host : Host β H) (b : β) : Prop :=
  ∀ v handler target m args, ∃ update : World β → H → H,
    host.body b v handler (.object target :: .method m :: args) =
      .host update fun w _ => .perform (.callMethod v (some (w.classOf handler)) m target args)

theorem lift_perform (op : Op β) :
    (Program.perform op : Program β H op.Answer).lift = .perform op := by
  simp only [Program.perform, Program.lift]
  congr 1
  funext x
  cases x with
  | ok a => rfl
  | error e => rfl

/-- What an outcome is once the host was told of the answer. -/
def answered {α : Type} (host : Host β H) (op : Op β) :
    Ending α × State β H → Ending α × State β H
  | (.value a, s) => (.value a, s.notify host (.performed op))
  | (.error e, s) => (.error e, s.notify host (.performed op))
  | x => x

theorem run_perform {host : Host β H} {exec : Executor β H} {op : Op β} {s : State β H} :
    (Program.perform op).run host exec s = answered host op (op.run host exec s) := by
  simp only [Program.perform, Program.run]
  generalize op.run host exec s = x
  obtain ⟨r, u⟩ := x
  cases r with
  | value a => rfl
  | error e => rfl
  | panic text => rfl
  | endless => rfl

/-- An answer is passed on as it is, and enters no frame. -/
theorem answered_spec {α : Type} (host : Host β H) (op : Op β)
    (x : Ending α × State β (Logged β H)) : (answered host.logged op x).1 = x.1 ∧
      framesOf (answered host.logged op x).2.host.2 = framesOf x.2.host.2 := by
  obtain ⟨r, u⟩ := x
  cases r with
  | value a => exact ⟨rfl, rfl⟩
  | error e => exact ⟨rfl, rfl⟩
  | panic text => exact ⟨rfl, rfl⟩
  | endless => exact ⟨rfl, rfl⟩

section Calls

variable {exec : Executor β H} {v : VmRef} {this : ObjectRef} {args : List Value}
  {s : State β H} {m : CellRef}

theorem invokeVirtual_eq {name : String} {k : Nat}
    (hk : s.world.slotOf (s.world.classOf this) name = some k)
    (hm : s.world.methodAt (s.world.classOf this) k = some m) :
    invokeVirtual exec v this name args s = exec v m this args s := by
  have hk' : (s.world.classes.get (s.world.classOf this)).slotOf name = some k := hk
  simp only [invokeVirtual, hk', invokeSlot, hm]

theorem invokeMethod_eq {caller : Option ClassRef}
    (hreceiver : s.world.checkReceiver this (s.world.content m) = .ok ())
    (haccess : s.world.checkAccess v caller (s.world.content m) = .ok ()) :
    invokeMethod exec v caller m this args s = exec v m this args s := by
  simp only [invokeMethod, hreceiver, haccess]

/-- The documented body changes the host's state and performs one call, which the checks let
pass. -/
theorem run_callsThrough {host : Host β H} {b : β} {handler : ObjectRef}
    {update : World β → H → H}
    (hbody : host.body b v handler (.object this :: .method m :: args) =
      .host update fun w _ => .perform (.callMethod v (some (w.classOf handler)) m this args))
    (hreceiver : s.world.checkReceiver this (s.world.content m) = .ok ())
    (haccess : s.world.checkAccess v (some (s.world.classOf handler)) (s.world.content m) =
      .ok ()) :
    (host.body b v handler (.object this :: .method m :: args)).run host exec s =
      answered host (.callMethod v (some (s.world.classOf handler)) m this args)
        (exec v m this args { s with host := update s.world s.host }) := by
  rw [hbody]
  let u : State β H := { s with host := update s.world s.host }
  show (Program.perform (.callMethod v (some (s.world.classOf handler)) m this args)).run
    host exec u = _
  rw [run_perform]
  exact congrArg (answered host _) (invokeMethod_eq (s := u) hreceiver haccess)

/-- Keeping a record adds nothing to such a body. -/
theorem body_logged {host : Host β H} {b : β} {handler : ObjectRef} {update : World β → H → H}
    (hbody : host.body b v handler (.object this :: .method m :: args) =
      .host update fun w _ => .perform (.callMethod v (some (w.classOf handler)) m this args)) :
    host.logged.body b v handler (.object this :: .method m :: args) =
      .host (fun w x => (update w x.1, x.2)) fun w _ =>
        .perform (.callMethod v (some (w.classOf handler)) m this args) := by
  show (host.body b v handler (.object this :: .method m :: args)).lift = _
  rw [hbody]
  exact congrArg (Program.host _) (funext fun w => funext fun _ => lift_perform _)

end Calls

/-! ### The way to the original -/

section Path

variable {host : Host β H} {v : VmRef} {n : Nat} {this handler : ObjectRef} {args : List Value}
  {t o inv : CellRef} {d : Descriptor β} {b : β} {s : State β (Logged β H)}

/-- In a window noted for the call the trampoline runs what it stands for. -/
theorem descends_noted (hmode : (s.world.coreOf v).mode = .perCall)
    (hnoted : s.thread.inWindow t this = true) (ht : (s.world.content t).replaced? = some o)
    (ho : s.world.content o = d) (hd : s.thread.depth ≤ s.world.maxDepth v)
    (hn : s.world.maxDepth v ≤ s.thread.depth + n) :
    Descends host v n [⟨s.thread.depth + 1, v, t, this, args⟩,
      ⟨s.thread.depth + 2, v, o, this, args⟩] o d this args s
      (execute host.logged n v t this args s) := by
  refine .frame hd hn fun n' hn' hlt => ?_
  have hn'' : s.world.maxDepth v ≤ s.thread.depth + 1 + n' := by omega
  rw [runCell_inWindow host.logged _ ht hmode hnoted]
  exact Descends.frame (s := s.enter host.logged v t this args) hlt hn'' fun _ _ hlt' =>
    .here hlt' ho

/-- In a class-wide window the trampoline holds what it stands for. -/
theorem descends_swapped (ht : s.world.content t = d)
    (hd : s.thread.depth ≤ s.world.maxDepth v)
    (hn : s.world.maxDepth v ≤ s.thread.depth + n) :
    Descends host v n [⟨s.thread.depth + 1, v, t, this, args⟩] t d this args s
      (execute host.logged n v t this args s) :=
  .frame hd hn fun _ _ hlt => .here hlt ht

/-- A handler that calls through takes one frame. -/
theorem descends_handler {path : List Frame} {cell : CellRef}
    (hinv : (s.world.content inv).code = .native b) (hb : host.CallsThrough b)
    (hreceiver : s.world.checkReceiver this (s.world.content t) = .ok ())
    (haccess : s.world.checkAccess v (some (s.world.classOf handler)) (s.world.content t) =
      .ok ())
    (hd : s.thread.depth ≤ s.world.maxDepth v)
    (hn : s.world.maxDepth v ≤ s.thread.depth + n)
    (h : ∀ (n' : Nat) (u : State β (Logged β H)), n = n' + 1 →
      s.thread.depth < s.world.maxDepth v → u.world = s.world →
      u.thread = { s.thread with depth := s.thread.depth + 1 } →
      Descends host v n' path cell d this args u (execute host.logged n' v t this args u)) :
    Descends host v n
      (⟨s.thread.depth + 1, v, inv, handler, .object this :: .method t :: args⟩ :: path) cell d
      this args s
      (execute host.logged n v inv handler (.object this :: .method t :: args) s) := by
  refine .frame hd hn fun n' hn' hlt => ?_
  have hinv' : ((s.enter host.logged v inv handler
      (.object this :: .method t :: args)).world.content inv).code = .native b := hinv
  rw [runCell_native _ _ hinv']
  generalize hs' : s.enter host.logged v inv handler (.object this :: .method t :: args) = s'
  have hworld : s'.world = s.world := by rw [← hs']; rfl
  have hthread : s'.thread = { s.thread with depth := s.thread.depth + 1 } := by
    rw [← hs']
    rfl
  rw [← hworld] at hreceiver haccess
  obtain ⟨update, hbody⟩ := hb v handler this t args
  rw [run_callsThrough (body_logged hbody) hreceiver haccess]
  let u : State β (Logged β H) := { s' with host := (update s'.world s'.host.1, s'.host.2) }
  obtain ⟨hout, hback⟩ := answered_spec host
    (.callMethod v (some (s'.world.classOf handler)) t this args)
    (execute host.logged n' v t this args u)
  exact (h n' u hn' hlt hworld hthread).around rfl rfl rfl rfl hout hback

end Path

/-! ### Inside the window -/

namespace World

variable {w : World β} {v : VmRef} {this handler : ObjectRef} {i : Nat} {r : Resolution}
  {core : Core} {th : Thread} {t o : CellRef} {c : ClassRef} {k : Nat}

/-- The object is intercepted, and has a handler of the class that its row asks for. -/
structure Bound (w : World β) (v : VmRef) (this : ObjectRef) (i : Nat) (r : Resolution)
    (handler : ObjectRef) : Prop where
  ordinary : w.isProxyInstance v this = false
  row : w.interceptionOf (w.coreOf v).registry (w.classOf this) = some (i, r)
  field : (w.field? this r.handlerOffset).bind Value.asObject? = some handler
  cls : w.classOf handler = r.handlerClass

theorem Bound.handlerOf (h : w.Bound v this i r handler) :
    w.handlerOf v (w.coreOf v) this = some handler := by
  simp [World.handlerOf, h.ordinary, h.row, h.field]

theorem Bound.live (h : w.Bound v this i r handler) (hw : w.Sound) :
    w.classes.Live (w.classOf this) := by
  refine hw.peopled.live (Store.live_of_get_ne fun hdefault => ?_)
  have hfield := h.field
  rw [World.field?, hdefault] at hfield
  cases hfield

/-- Where nothing was patched on a lineage, a window changes no table. -/
theorem methodAt_openWindow (hfree : ∀ {g i r}, w.Resolves g i r → r.cls ∉ w.lineage c) :
    (w.openWindow th v core this t).2.1.methodAt c k = w.methodAt c k := by
  have htables := (shifts_openWindow w th v core this t).tables
  have hopens := opens_openWindow w th v core this t
  generalize w.openWindow th v core this t = x at hopens htables ⊢
  cases hopens with
  | passthrough _ => rfl
  | perCall _ _ _ => rfl
  | @classWide j r' _ hr _ =>
    have hne : c ≠ r'.cls := by
      intro heq
      refine hfree (interceptionOf_eq_some.mp hr).2.1 ?_
      rw [← heq]
      exact w.mem_lineage_self c
    have hclass : ((w.disarm r' t).modifyEntry core.registry j Entry.windowOpened).classes.get c =
        w.classes.get c := table_disarm_of_ne hne t
    rw [World.methodAt, World.tableOf, hclass, htables, World.methodAt, World.tableOf]

theorem Shifts.derivesFrom {w' : World β} (h : w.Shifts w') (c : ClassRef) (n : Nat) :
    w'.derivesFrom c n = w.derivesFrom c n := by
  rw [World.derivesFrom, h.sameClasses.lineage, World.derivesFrom]
  simp only [(h.alike _).number]

/-- The trampoline passes both checks of a reflective call by the handler, whether it is
one now or holds its original. -/
theorem Shifts.checks {w' : World β} (h : w.Shifts w') (hw' : w'.Sound)
    (hr : w.Resolves (w.coreOf v).registry i r) {d d' : Descriptor β} {name : String}
    (hd : w.declared? (w.classOf this) name k = some d) (howner : d'.owner = d.owner) :
    w'.checkReceiver this d' = .ok () ∧ w'.checkAccess v (some r.handlerClass) d' = .ok () := by
  have hclass : w'.classOf this = w.classOf this := by
    rw [World.classOf, h.objects, World.classOf]
  have hreceiver : w'.derivesFrom (w'.classOf this) d'.owner = true := by
    rw [hclass, howner, h.derivesFrom]
    exact derivesFrom_declared hd
  have hcore : w'.coreOf v = w.coreOf v := by rw [World.coreOf, h.vms, World.coreOf]
  have htrusted : w'.isHandlerClass (w'.coreOf v) r.handlerClass = true := by
    rw [World.isHandlerClass, hcore]
    exact hw'.isHandlerClass (h.resolves.mpr hr)
  refine ⟨?_, ?_⟩
  · rw [checkReceiver, if_pos hreceiver]
  · simp only [checkAccess, htrusted, Bool.or_true, if_true]

/-- The class runs this body when it is called as a handler. -/
structure HandledBy (w : World β) (c : ClassRef) (l : Nat) (inv : CellRef) (b : β) : Prop where
  slot : w.slotOf c handlerMethod = some l
  cell : w.methodAt c l = some inv
  code : (w.content inv).code = .native b

/-- The body that a class declares or inherits for its instances as handlers. -/
def handlerBody? (w : World β) (c : ClassRef) : Option β :=
  (w.declaration? c handlerMethod).bind fun x => x.2.body

/-- A class without rows on its lineage runs the body that is declared for it. -/
theorem Sound.handledBy (hw : w.Sound) (hc : w.classes.Live c)
    (hfree : ∀ {g i r}, w.Resolves g i r → r.cls ∉ w.lineage c) {b : β}
    (hb : w.handlerBody? c = some b) : ∃ l inv, w.HandledBy c l inv b := by
  rw [handlerBody?, Option.bind_eq_some_iff] at hb
  obtain ⟨⟨a, m⟩, hm, hb⟩ := hb
  obtain ⟨l, hl⟩ : ∃ l, w.slotOf c handlerMethod = some l := by
    obtain ⟨ha, hlast⟩ := declaration?_eq_some hm
    rw [← Option.isSome_iff_exists, hw.lineages.slotted _ hc]
    refine ⟨a, ha, ?_⟩
    rw [Declares, Class.declares, ← lastNamed_isSome, hlast]
    rfl
  obtain ⟨inv, hinv⟩ := hw.methodAt hc hl
  have hdeclared := hw.declared_plain hc hl hinv (hw.not_copied hc hfree hinv)
  rw [declared?, hm] at hdeclared
  refine ⟨l, inv, hl, hinv, ?_⟩
  have hbody : m.body = some b := hb
  rw [← Option.some.inj hdeclared]
  show Code.ofBody? m.body = _
  rw [hbody]
  rfl

/-- Inside a window it does so as well. -/
theorem HandledBy.openWindow {l : Nat} {inv : CellRef} {b : β} (h : w.HandledBy c l inv b)
    (hw : w.Sound) (hc : w.classes.Live c)
    (hfree : ∀ {g i r}, w.Resolves g i r → r.cls ∉ w.lineage c)
    (ht : (w.content t).isTrampoline = true) :
    (w.openWindow th v core this t).2.1.HandledBy c l inv b where
  slot := by
    have halike := (shifts_openWindow w th v core this t).alike c
    exact (halike.slotOf handlerMethod).trans h.slot
  cell := (methodAt_openWindow hfree).trans h.cell
  code := by
    have hturns : w.Turns (w.openWindow th v core this t).2.1 := hw.turns_openWindow ht
    rw [hturns.plain inv (hw.not_copied hc hfree h.cell)]
    exact h.code

/-- The nearest row of a class is the same. -/
theorem Shifts.nearestEntry {w' : World β} (h : w.Shifts w') (g : RegistryRef) (c : ClassRef) :
    w'.nearestEntry g c = w.nearestEntry g c := by
  have hown : w'.ownEntry g = w.ownEntry g := by
    funext a
    rw [World.ownEntry, World.ownEntry, Registry.position?, Registry.position?,
      (h.registries g).2.1, h.sameClasses.className]
  rw [World.nearestEntry, World.nearestEntry, hown, h.sameClasses.lineage]

/-- So is the entry that speaks for it. -/
theorem Shifts.interceptionOf {w' : World β} (h : w.Shifts w') (g : RegistryRef) (c : ClassRef) :
    w'.interceptionOf g c = w.interceptionOf g c := by
  simp only [World.interceptionOf, World.resolvedFor, h.nearestEntry, h.sameClasses.lineage,
    (h.entries g _).2]

/-- So is what is a proxy. -/
theorem Shifts.isProxyInstance {w' : World β} (h : w.Shifts w') (v : VmRef) (o : ObjectRef) :
    w'.isProxyInstance v o = w.isProxyInstance v o := by
  simp only [World.isProxyInstance, World.classOf, Class.super?, h.objects, h.vms,
    (h.alike _).ancestors]

/-- So are the object's handler and the row it is from. -/
theorem Bound.shifts {w' : World β} (h : w.Bound v this i r handler) (hs : w.Shifts w') :
    w'.Bound v this i r handler where
  ordinary := (hs.isProxyInstance v this).trans h.ordinary
  row := by
    rw [World.coreOf, World.classOf, hs.objects, hs.vms, hs.interceptionOf]
    exact h.row
  field := by
    rw [World.field?, hs.objects]
    exact h.field
  cls := by
    rw [World.classOf, hs.objects]
    exact h.cls

/-- The object is bound to a handler that runs this body, of a class that was not patched. -/
structure Attended (w : World β) (v : VmRef) (this : ObjectRef) (i : Nat) (r : Resolution)
    (handler : ObjectRef) (l : Nat) (inv : CellRef) (b : β) : Prop where
  bound : w.Bound v this i r handler
  handled : w.HandledBy r.handlerClass l inv b
  live : w.classes.Live r.handlerClass
  unpatched : ∀ {g j x}, w.Resolves g j x → x.cls ∉ w.lineage r.handlerClass

/-- Where the handler's class has no rows on its lineage it runs what is declared for it. -/
theorem Bound.attended {b : β} (h : w.Bound v this i r handler) (hw : w.Sound)
    (hfree : ∀ a ∈ w.lineage r.handlerClass, w.ownEntry (w.coreOf v).registry a = none)
    (hinvoke : w.handlerBody? r.handlerClass = some b) :
    ∃ l inv, w.Attended v this i r handler l inv b := by
  obtain ⟨-, hres, -⟩ := interceptionOf_eq_some.mp h.row
  obtain ⟨home, hhome, hregistry, -⟩ := hw.filled.handler hres
  have hunpatched : ∀ {g j x}, w.Resolves g j x → x.cls ∉ w.lineage r.handlerClass :=
    fun hx => hw.not_patched hhome (by rw [hregistry]; exact hfree) hx
  have hlive := hw.homes.live hhome
  obtain ⟨l, inv, hhandled⟩ := hw.handledBy hlive hunpatched hinvoke
  exact ⟨l, inv, h, hhandled, hlive, hunpatched⟩

/-- It stays so where the handler's class keeps its body. -/
theorem Attended.shifts {w' : World β} {l : Nat} {inv : CellRef} {b : β}
    (h : w.Attended v this i r handler l inv b) (hs : w.Shifts w')
    (hhandled : w'.HandledBy r.handlerClass l inv b) : w'.Attended v this i r handler l inv b where
  bound := h.bound.shifts hs
  handled := hhandled
  live := (hs.liveClasses _).mpr h.live
  unpatched hx := by
    rw [hs.sameClasses.lineage]
    exact h.unpatched (hs.resolves.mp hx)

theorem Attended.openWindow {l : Nat} {inv : CellRef} {b : β}
    (h : w.Attended v this i r handler l inv b) (hw : w.Sound)
    (ht : (w.content t).isTrampoline = true) (o : ObjectRef) :
    (w.openWindow th v core o t).2.1.Attended v this i r handler l inv b :=
  h.shifts (shifts_openWindow w th v core o t)
    (h.handled.openWindow hw h.live h.unpatched ht)

theorem depth_openWindow (w : World β) (th : Thread) (v : VmRef) (core : Core)
    (this : ObjectRef) (t : CellRef) : (w.openWindow th v core this t).2.2.depth = th.depth := by
  have hopens := opens_openWindow w th v core this t
  generalize w.openWindow th v core this t = x at hopens ⊢
  cases hopens <;> rfl

end World

/-! ### The whole call -/

/-- The frames of a call-through made at some depth inside the window. -/
def throughPath (mode : SwapMode) (depth : Nat) (v : VmRef) (this : ObjectRef) (t o : CellRef)
    (args : List Value) : List Frame :=
  ⟨depth + 1, v, t, this, args⟩ ::
    match mode with
    | .perCall => [⟨depth + 2, v, o, this, args⟩]
    | .classWide => []

/-- The frames of an intercepted call made at some depth: four where windows are noted per call, and
three class-wide. -/
def callPath (mode : SwapMode) (depth : Nat) (v : VmRef) (this handler : ObjectRef)
    (t o inv : CellRef) (args : List Value) : List Frame :=
  ⟨depth + 1, v, t, this, args⟩ ::
  ⟨depth + 2, v, inv, handler, .object this :: .method t :: args⟩ ::
  throughPath mode (depth + 2) v this t o args

/-- The cell that the original of a trampoline is run from. -/
def SwapMode.runsFrom (mode : SwapMode) (t o : CellRef) : CellRef :=
  match mode with
  | .perCall => o
  | .classWide => t

section Call

variable {host : Host β H} {v : VmRef} {n : Nat} {this handler : ObjectRef} {args : List Value}
  {t o : CellRef} {b : β} {i k : Nat} {r : Resolution} {name : String}

/-- What the trampoline of the call holds inside the window. -/
theorem content_inWindow {w : World β} (hw : w.Sound) (hu : w.Unstacked) (hf : w.Faithful)
    (hbound : w.Bound v this i r handler)
    (hcopy : w.CopyAt (w.classOf this) k t o (w.coreOf v).registry i r)
    (ht : (w.content t).isTrampoline = true) (th : Thread) :
    (w.openWindow th v (w.coreOf v) this t).2.1.content t =
      match (w.coreOf v).mode with
      | .perCall => (w.content o).toTrampoline o
      | .classWide => w.content o := by
  have hlive : w.cells.Live t := (hw.tabled.intercepted hcopy.resolves).live_of_mem hcopy.copy
  cases hmode : (w.coreOf v).mode with
  | perCall =>
    rw [World.openWindow_perCall hbound.ordinary hbound.row hmode]
    exact hcopy.stands hw hu hf ht
  | classWide =>
    have hslot : (w.content t).slot = k :=
      ((hw.tabled.intercepted hcopy.resolves).cells hcopy.copy).2
    rw [World.openWindow_classWide hbound.ordinary hbound.row hmode]
    exact World.content_disarm_self hlive (by rw [hslot]; exact hcopy.original)

/-- The last frames, inside the window. -/
theorem descends_original {w : World β} {th : Thread} {u : State β (Logged β H)} (hw : w.Sound)
    (hu : w.Unstacked) (hf : w.Faithful) (hbound : w.Bound v this i r handler)
    (hcopy : w.CopyAt (w.classOf this) k t o (w.coreOf v).registry i r)
    (ht : (w.content t).isTrampoline = true)
    (hworld : u.world = (w.openWindow th v (w.coreOf v) this t).2.1)
    (hwindows : u.thread.windows = (w.openWindow th v (w.coreOf v) this t).2.2.windows)
    (hd : u.thread.depth ≤ u.world.maxDepth v)
    (hn : u.world.maxDepth v ≤ u.thread.depth + n) :
    Descends host v n (throughPath (w.coreOf v).mode u.thread.depth v this t o args)
      ((w.coreOf v).mode.runsFrom t o) (w.content o) this args u
      (execute host.logged n v t this args u) := by
  have hheld := content_inWindow hw hu hf hbound hcopy ht th
  rw [← hworld] at hheld
  cases hmode : (w.coreOf v).mode with
  | perCall =>
    rw [hmode] at hheld
    rw [World.openWindow_perCall hbound.ordinary hbound.row hmode] at hworld hwindows
    have hcore : u.world.coreOf v = w.coreOf v := by rw [hworld]; rfl
    have hnoted : u.thread.inWindow t this = true := by
      rw [Thread.inWindow, hwindows]
      simp
    exact descends_noted (by rw [hcore, hmode]) hnoted (by rw [hheld]; rfl)
      (by rw [hworld]; rfl) hd hn
  | classWide =>
    rw [hmode] at hheld
    exact descends_swapped hheld hd hn

/-- A window with a handler that calls through, and inside what the trampoline comes to
there. -/
theorem descends_window {s : State β (Logged β H)} {l : Nat} {inv : CellRef} {path : List Frame}
    {cell : CellRef} {d d' : Descriptor β} (hw : s.world.Sound)
    (hhandler : s.world.Attended v this i r handler l inv b) (hb : host.CallsThrough b)
    (ht : (s.world.content t).isTrampoline = true)
    (hdeclared : s.world.declared? (s.world.classOf this) name k = some d')
    (howner : ((s.world.openWindow s.thread v (s.world.coreOf v) this t).2.1.content t).owner =
      d'.owner)
    (hd : s.thread.depth ≤ s.world.maxDepth v) (hn : s.world.maxDepth v ≤ s.thread.depth + n)
    (h : ∀ (n' : Nat) (u : State β (Logged β H)), u.thread.depth = s.thread.depth + 1 →
      u.world = (s.world.openWindow s.thread v (s.world.coreOf v) this t).2.1 →
      u.thread.windows =
        (s.world.openWindow s.thread v (s.world.coreOf v) this t).2.2.windows →
      u.thread.depth ≤ u.world.maxDepth v → u.world.maxDepth v ≤ u.thread.depth + n' →
      Descends host v n' path cell d this args u (execute host.logged n' v t this args u)) :
    Descends host v n
      (⟨s.thread.depth + 1, v, inv, handler, .object this :: .method t :: args⟩ :: path) cell d
      this args s
      (invokeHandler host.logged (execute host.logged n) v (s.world.coreOf v) handler t this
        args s) := by
  have hshifts := World.shifts_openWindow s.world s.thread v (s.world.coreOf v) this t
  have hsound : (s.world.openWindow s.thread v (s.world.coreOf v) this t).2.1.Sound :=
    hw.openWindow ht
  have hinside : (s.world.openWindow s.thread v (s.world.coreOf v) this t).2.1.Attended v this i
      r handler l inv b := hhandler.openWindow hw ht this
  have hdepth := s.world.depth_openWindow s.thread v (s.world.coreOf v) this t
  rw [invokeHandler_eq]
  generalize hs' : s.begin host.logged v (s.world.coreOf v) this t = s'
  have hworld : s'.world = (s.world.openWindow s.thread v (s.world.coreOf v) this t).2.1 := by
    rw [← hs']
    rfl
  have hthread : s'.thread = (s.world.openWindow s.thread v (s.world.coreOf v) this t).2.2 := by
    rw [← hs']
    rfl
  have hframes : framesOf s'.host.2 = framesOf s.host.2 := by
    rw [← hs']
    rfl
  rw [← hworld] at hshifts hsound hinside howner
  rw [← hthread] at hdepth
  have hlimit : s'.world.maxDepth v = s.world.maxDepth v := by
    rw [World.maxDepth, hshifts.vms, World.maxDepth]
  obtain ⟨hreceiver, haccess⟩ := hshifts.checks hsound
    (World.interceptionOf_eq_some.mp hhandler.bound.row).2.1 hdeclared howner
  have hcall : invokeVirtual (execute host.logged n) v handler handlerMethod
      (.object this :: .method t :: args) s' =
      execute host.logged n v inv handler (.object this :: .method t :: args) s' :=
    invokeVirtual_eq (by rw [hinside.bound.cls]; exact hinside.handled.slot)
      (by rw [hinside.bound.cls]; exact hinside.handled.cell)
  have hinner : Descends host v n
      (⟨s'.thread.depth + 1, v, inv, handler, .object this :: .method t :: args⟩ :: path) cell d
      this args s'
      (execute host.logged n v inv handler (.object this :: .method t :: args) s') := by
    refine descends_handler hinside.handled.code hb hreceiver
      (by rw [hinside.bound.cls]; exact haccess) (by rw [hdepth, hlimit]; exact hd)
      (by rw [hdepth, hlimit]; exact hn) fun n' u hn' hlt huworld huthread => ?_
    have hudepth : u.thread.depth = s'.thread.depth + 1 := by rw [huthread]
    rw [hlimit] at hlt
    exact h n' u (by rw [hudepth, hdepth]) (huworld.trans hworld) (by rw [huthread, hthread])
      (by rw [huworld, hlimit, hudepth]; exact hlt) (by rw [huworld, hlimit, hudepth]; omega)
  rw [hcall, ← hdepth]
  exact hinner.around hdepth hlimit hshifts.objects hframes rfl rfl

/-- Outside a window of its own, a trampoline enters the handler in the second frame. -/
theorem descends_intercepted {s : State β (Logged β H)} {l : Nat} {inv : CellRef}
    {path : List Frame} {cell : CellRef} {d d' : Descriptor β} (hw : s.world.Sound)
    (hhandler : s.world.Attended v this i r handler l inv b) (hb : host.CallsThrough b)
    (ho : (s.world.content t).replaced? = some o)
    (hout : ¬ ((s.world.coreOf v).mode = .perCall ∧ s.thread.inWindow t this = true))
    (hdeclared : s.world.declared? (s.world.classOf this) name k = some d')
    (howner : ((s.world.openWindow s.deepen.thread v (s.world.coreOf v) this t).2.1.content
      t).owner = d'.owner)
    (hd : s.thread.depth ≤ s.world.maxDepth v) (hn : s.world.maxDepth v ≤ s.thread.depth + n)
    (h : ∀ (n' : Nat) (u : State β (Logged β H)), u.thread.depth = s.thread.depth + 2 →
      u.world = (s.world.openWindow s.deepen.thread v (s.world.coreOf v) this t).2.1 →
      u.thread.windows =
        (s.world.openWindow s.deepen.thread v (s.world.coreOf v) this t).2.2.windows →
      u.thread.depth ≤ u.world.maxDepth v → u.world.maxDepth v ≤ u.thread.depth + n' →
      Descends host v n' path cell d this args u (execute host.logged n' v t this args u)) :
    Descends host v n (⟨s.thread.depth + 1, v, t, this, args⟩ ::
        ⟨s.thread.depth + 2, v, inv, handler, .object this :: .method t :: args⟩ :: path) cell d
      this args s (execute host.logged n v t this args s) := by
  have htramp := Descriptor.isTrampoline_of_replaced? ho
  refine .frame hd hn fun n' hn' hlt => ?_
  rw [runCell_handled host.logged _ ho hout hhandler.bound.handlerOf]
  exact descends_window (s := s.enter host.logged v t this args) hw hhandler hb htramp hdeclared
    howner hlt (by show s.world.maxDepth v ≤ s.thread.depth + 1 + n'; omega)
    fun n'' u => h n'' u

/-- **An intercepted call with a handler that calls through is one entry into the handler
and one run of the original.** -/
theorem descends_call {s : State β (Logged β H)} (hw : s.world.Sound) (hu : s.world.Unstacked)
    (hf : s.world.Faithful) (hbound : s.world.Bound v this i r handler)
    (hfree : ∀ a ∈ s.world.lineage r.handlerClass,
      s.world.ownEntry (s.world.coreOf v).registry a = none)
    (hinvoke : s.world.handlerBody? r.handlerClass = some b) (hb : host.CallsThrough b)
    (hk : s.world.slotOf (s.world.classOf this) name = some k)
    (ht : s.world.methodAt (s.world.classOf this) k = some t)
    (ho : (s.world.content t).replaced? = some o)
    (hout : ¬ ((s.world.coreOf v).mode = .perCall ∧ s.thread.inWindow t this = true))
    (hd : s.thread.depth ≤ s.world.maxDepth v)
    (hn : s.world.maxDepth v ≤ s.thread.depth + n) :
    ∃ l inv, s.world.HandledBy r.handlerClass l inv b ∧
      Descends host v n
        (callPath (s.world.coreOf v).mode s.thread.depth v this handler t o inv args)
        ((s.world.coreOf v).mode.runsFrom t o) (s.world.content o) this args s
        (invokeVirtual (execute host.logged n) v this name args s) := by
  have hclass := hbound.live hw
  have htramp := Descriptor.isTrampoline_of_replaced? ho
  obtain ⟨-, hres, habove⟩ := World.interceptionOf_eq_some.mp hbound.row
  obtain ⟨g', i', r', hcopy⟩ := hw.copyAt_of_replaced hu hf hclass ht ho
  obtain ⟨rfl, rfl, rfl⟩ := hw.patched_once hu hclass hres hcopy.resolves habove hcopy.above
  obtain ⟨l, inv, hhandler⟩ := hbound.attended hw hfree hinvoke
  have howner : ((s.world.openWindow s.deepen.thread v (s.world.coreOf v) this t).2.1.content
      t).owner = (s.world.content o).owner := by
    rw [content_inWindow hw hu hf hbound hcopy htramp]
    cases (s.world.coreOf v).mode <;> rfl
  refine ⟨l, inv, hhandler.handled, ?_⟩
  rw [invokeVirtual_eq hk ht]
  refine descends_intercepted hw hhandler hb ho hout (hcopy.declared hw hu hclass hk ht) howner hd
    hn fun n' u hudepth huworld huwindows hud hun => ?_
  rw [← hudepth]
  exact descends_original hw hu hf hbound hcopy htramp huworld huwindows hud hun

end Call

/-- **An intercepted call is one handler entry and one original run, at an exact cost.**  At
whatever moment of a run of ordinary bodies an intercepted object is called, in whichever
mode: the handler is entered once, with the object, the trampoline and the arguments; the
original is run once, four frames further down or three; how that ends is how the call
ends; and where these frames do not fit, the call overflows without the original being
run. -/
theorem Reached.calls_through {host : Host β H} {s : State β (Logged β H)}
    (hbodies : ∀ b v this args,
      (host.body b v this args).Uses fun op => op.IsOrdinary = true)
    (hs : Reached host (fun op => op.IsOrdinary = true) s) {w : World β} {th : Thread}
    (hat : s.trail.At w th) (hu : w.Unstacked) {v : VmRef} {this handler : ObjectRef} {i : Nat}
    {r : Resolution} (hbound : w.Bound v this i r handler)
    (hfree : ∀ a ∈ w.lineage r.handlerClass, w.ownEntry (w.coreOf v).registry a = none)
    {b : β} (hinvoke : w.handlerBody? r.handlerClass = some b) (hb : host.CallsThrough b)
    {name : String} {k : Nat} {t o : CellRef}
    (hk : w.slotOf (w.classOf this) name = some k)
    (ht : w.methodAt (w.classOf this) k = some t) (ho : (w.content t).replaced? = some o)
    (hout : ¬ ((w.coreOf v).mode = .perCall ∧ th.inWindow t this = true))
    (hd : th.depth ≤ w.maxDepth v) (args : List Value) {n : Nat}
    (hn : w.maxDepth v ≤ th.depth + n) (h : H) (log : List (Moment β)) :
    ∃ l inv, w.HandledBy r.handlerClass l inv b ∧
      Descends host v n (callPath (w.coreOf v).mode th.depth v this handler t o inv args)
        ((w.coreOf v).mode.runsFrom t o) (w.content o) this args ⟨w, th, (h, log)⟩
        (invokeVirtual (execute host.logged n) v this name args ⟨w, th, (h, log)⟩) := by
  obtain ⟨hw, hf⟩ := Reached.faithful hbodies hs hat
  exact descends_call (s := ⟨w, th, (h, log)⟩) hw hu (hf hu) hbound hfree hinvoke hb hk ht ho hout
    hd hn

/-- The demonstration's handler calls through, and counts its entries. -/
theorem Demo.callsThrough_invoke : host.CallsThrough Body.invoke := fun _ _ _ _ _ => ⟨_, rfl⟩

/-- After the demonstration's first call its activity is bound to its handler. -/
theorem Demo.bound_opened (mode : SwapMode) :
    (opened mode).world.Bound ⟨0⟩ ⟨0⟩ 0 ⟨⟨3⟩, ⟨2⟩, 0, ⟨4⟩, ⟨3⟩⟩ ⟨1⟩ := by
  cases mode with
  | perCall => constructor <;> decide +kernel
  | classWide => constructor <;> decide +kernel

/-- The activity called once more from the top, in both modes. -/
theorem Demo.called_through :
    (∃ inv, Descends host ⟨0⟩ maxDepth (callPath .perCall 0 ⟨0⟩ ⟨0⟩ ⟨1⟩ ⟨2⟩ ⟨1⟩ inv []) ⟨1⟩
      ((opened .perCall).world.content ⟨1⟩) ⟨0⟩ [] (opened .perCall)
      (invokeVirtual (execute host.logged maxDepth) ⟨0⟩ ⟨0⟩ methodName [] (opened .perCall))) ∧
    (∃ inv, Descends host ⟨0⟩ maxDepth (callPath .classWide 0 ⟨0⟩ ⟨0⟩ ⟨1⟩ ⟨2⟩ ⟨1⟩ inv []) ⟨2⟩
      ((opened .classWide).world.content ⟨1⟩) ⟨0⟩ [] (opened .classWide)
      (invokeVirtual (execute host.logged maxDepth) ⟨0⟩ ⟨0⟩ methodName []
        (opened .classWide))) := by
  have hcall : ∀ mode, ∃ inv, Descends host ⟨0⟩ maxDepth
      (callPath mode 0 ⟨0⟩ ⟨0⟩ ⟨1⟩ ⟨2⟩ ⟨1⟩ inv []) (mode.runsFrom ⟨2⟩ ⟨1⟩)
      ((opened mode).world.content ⟨1⟩) ⟨0⟩ [] (opened mode)
      (invokeVirtual (execute host.logged maxDepth) ⟨0⟩ ⟨0⟩ methodName [] (opened mode)) := by
    intro mode
    have hreached := reached_opened mode
    have hbound := bound_opened mode
    have hmode : ((opened mode).world.coreOf ⟨0⟩).mode = mode := by
      cases mode <;> decide +kernel
    have hlimit : (opened mode).world.maxDepth ⟨0⟩ = maxDepth := by
      cases mode <;> decide +kernel
    have hthread : (opened mode).thread = {} := by cases mode <;> decide +kernel
    have hrows : (opened mode).world.Unstacked := by cases mode <;> decide +kernel
    have hfree : ∀ a ∈ (opened mode).world.lineage ⟨2⟩,
        (opened mode).world.ownEntry ((opened mode).world.coreOf ⟨0⟩).registry a = none := by
      cases mode <;> decide +kernel
    have hinvoke : (opened mode).world.handlerBody? ⟨2⟩ = some Body.invoke := by
      cases mode <;> decide +kernel
    have hslot : (opened mode).world.slotOf ((opened mode).world.classOf ⟨0⟩) methodName =
        some 0 := by
      cases mode <;> decide +kernel
    have hcell : (opened mode).world.methodAt ((opened mode).world.classOf ⟨0⟩) 0 = some ⟨2⟩ := by
      cases mode <;> decide +kernel
    have horiginal : ((opened mode).world.content ⟨2⟩).replaced? = some ⟨1⟩ := by
      cases mode <;> decide +kernel
    generalize opened mode = s at *
    have hdepth : s.thread.depth = 0 := by rw [hthread]
    have hout : ¬ ((s.world.coreOf ⟨0⟩).mode = .perCall ∧
        s.thread.inWindow ⟨2⟩ ⟨0⟩ = true) := by
      rw [hthread]
      exact fun h => Bool.noConfusion h.2
    have hroom : s.thread.depth ≤ s.world.maxDepth ⟨0⟩ := by omega
    have hfuel : s.world.maxDepth ⟨0⟩ ≤ s.thread.depth + maxDepth := by omega
    obtain ⟨l, inv, -, h⟩ := Reached.calls_through uses_body hreached s.at_present hrows
      hbound hfree hinvoke callsThrough_invoke hslot hcell horiginal hout hroom [] hfuel
      s.host.1 s.host.2
    rw [hmode, hdepth] at h
    exact ⟨inv, h⟩
  exact ⟨hcall .perCall, hcall .classWide⟩

end Interception
