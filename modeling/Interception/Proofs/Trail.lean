/-
What a run leaves behind.

Many properties of a run are about every moment of it and not about its end.  A host
is told about everything that changes the world or the thread, so a host that writes
down what it is told has seen every moment.  `Host.logged` is any host with such a
record beside its own state; bodies cannot reach the record, and keeping it changes
nothing else, which is `execute_logged` and `start_logged`.

A `Trail` is what the later files reason about: the world, the thread and the record.
A run between two events is described by its trail before and its trail after, whatever
the host keeps for itself.
-/
import Interception.Dispatch

namespace Interception

variable {β H α : Type}

/-- One event, with the world and the thread as they were when it happened. -/
structure Moment (β : Type) where
  event : Event β
  world : World β
  thread : Thread

/-- A host's own state, and every moment so far, newest first. -/
abbrev Logged (β H : Type) := H × List (Moment β)

/-- The same program, on a host that also keeps a record. -/
def Program.lift : Program β H α → Program β (Logged β H) α
  | .pure a => .pure a
  | .fail e => .fail e
  | .panic text => .panic text
  | .host update next =>
    .host (fun w h => (update w h.1, h.2)) fun w h => (next w h.1).lift
  | .call op next => .call op fun r => (next r).lift

/-- The same host, writing down everything it is told. -/
def Host.logged (host : Host β H) : Host β (Logged β H) where
  body b v this args := (host.body b v this args).lift
  observe e w t h := (host.observe e w t h.1, ⟨e, w, t⟩ :: h.2)

/-! ### Frames and windows as single steps of a state -/

namespace State

variable (s : State β H) (host : Host β H)

/-- Into an admitted frame. -/
def enter (v : VmRef) (m : CellRef) (this : ObjectRef) (args : List Value) : State β H :=
  s.deepen.notify host (.entered v m this args)

/-- Out of a frame. -/
def leave (v : VmRef) (m : CellRef) (this : ObjectRef) : State β H :=
  s.rise.notify host (.left v m this)

/-- Into the window of an intercepted call. -/
def begin (v : VmRef) (core : Core) (this : ObjectRef) (m : CellRef) : State β H :=
  (s.openWindow v core this m).2.notify host (.opened (s.openWindow v core this m).1)

/-- Out of the window of an intercepted call. -/
def finish (g : Guard β) : State β H := (s.closeWindow g).notify host (.closed g)

end State

section Equations

variable (host : Host β H) (exec : Executor β H)

theorem execute_zero (v : VmRef) (m : CellRef) (this : ObjectRef) (args : List Value)
    (s : State β H) : execute host 0 v m this args s = refuse host v m this s := rfl

theorem execute_refused {n : Nat} {v : VmRef} {m : CellRef} {this : ObjectRef}
    {args : List Value} {s : State β H} (h : s.world.maxDepth v < s.thread.depth + 1) :
    execute host n v m this args s = refuse host v m this s := by
  cases n with
  | zero => rfl
  | succ n => rw [execute, if_pos h]

theorem execute_admitted {n : Nat} {v : VmRef} {m : CellRef} {this : ObjectRef}
    {args : List Value} {s : State β H} (h : s.thread.depth < s.world.maxDepth v) :
    execute host (n + 1) v m this args s =
      ((runCell host (execute host n) v m this args (s.enter host v m this args)).1,
        (runCell host (execute host n) v m this args (s.enter host v m this args)).2.leave
          host v m this) := by
  rw [execute, if_neg (by omega)]
  rfl

/-- Within an admitted frame. -/
def inFrame (v : VmRef) (m : CellRef) (this : ObjectRef) (args : List Value)
    (act : Act β H Value) : Act β H Value := fun s =>
  ((act (s.enter host v m this args)).1, (act (s.enter host v m this args)).2.leave host v m this)

theorem inFrame_congr {v : VmRef} {m : CellRef} {this : ObjectRef} {args : List Value}
    {act act' : Act β H Value} {s : State β H}
    (h : act (s.enter host v m this args) = act' (s.enter host v m this args)) :
    inFrame host v m this args act s = inFrame host v m this args act' s := by
  simp only [inFrame, h]

/-- A trampoline goes to interception. -/
theorem runCell_trampoline {v : VmRef} {m replaced : CellRef} {this : ObjectRef}
    {args : List Value} {s : State β H} (hr : (s.world.content m).replaced? = some replaced) :
    runCell host exec v m this args s =
      invokeTrampoline host exec v (s.world.coreOf v) m this args s := by
  have hcode : (s.world.content m).code = .trampoline replaced :=
    Descriptor.replaced?_eq_some_iff.mp hr
  simp only [runCell, hcode]

theorem runCell_native {v : VmRef} {m : CellRef} {this : ObjectRef} {args : List Value}
    {s : State β H} {b : β} (hb : (s.world.content m).code = .native b) :
    runCell host exec v m this args s = (host.body b v this args).run host exec s := by
  simp only [runCell, hb]

theorem runCell_abstract {v : VmRef} {m : CellRef} {this : ObjectRef} {args : List Value}
    {s : State β H} (hm : (s.world.content m).code = .abstract) :
    runCell host exec v m this args s =
      (.error (.abstractMethod (s.world.content m).qualifiedName), s) := by
  simp only [runCell, hm]

/-- An admitted frame on a trampoline goes to interception. -/
theorem execute_trampoline {n : Nat} {v : VmRef} {m replaced : CellRef} {this : ObjectRef}
    {args : List Value} {s : State β H} (h : s.thread.depth < s.world.maxDepth v)
    (hr : (s.world.content m).replaced? = some replaced) :
    execute host (n + 1) v m this args s =
      inFrame host v m this args
        (invokeTrampoline host (execute host n) v (s.world.coreOf v) m this args) s := by
  have hrun : runCell host (execute host n) v m this args (s.enter host v m this args) =
      invokeTrampoline host (execute host n) v (s.world.coreOf v) m this args
        (s.enter host v m this args) := runCell_trampoline host (execute host n) hr
  rw [execute_admitted host h, hrun]
  rfl

theorem invokeHandler_eq (v : VmRef) (core : Core) (handler : ObjectRef) (m : CellRef)
    (this : ObjectRef) (args : List Value) (s : State β H) :
    invokeHandler host exec v core handler m this args s =
      ((invokeVirtual exec v handler handlerMethod (.object this :: .method m :: args)
          (s.begin host v core this m)).1,
        (invokeVirtual exec v handler handlerMethod (.object this :: .method m :: args)
          (s.begin host v core this m)).2.finish host (s.openWindow v core this m).1) := rfl

section

variable {v : VmRef} {core : Core} {m replaced : CellRef} {this : ObjectRef}
  {args : List Value} {s : State β H}

/-- Inside a window of its own a trampoline is what it replaced. -/
theorem invokeTrampoline_inWindow (hr : (s.world.content m).replaced? = some replaced)
    (hw : core.mode = .perCall ∧ s.thread.inWindow m this = true) :
    invokeTrampoline host exec v core m this args s = exec v replaced this args s := by
  simp only [invokeTrampoline, hr, if_pos hw]

/-- Without a handler a trampoline is what it replaced. -/
theorem invokeTrampoline_unbound (hr : (s.world.content m).replaced? = some replaced)
    (hh : s.world.handlerOf v core this = none) :
    invokeTrampoline host exec v core m this args s = exec v replaced this args s := by
  simp only [invokeTrampoline, hr, hh, ite_self]

/-- Anywhere else a trampoline calls the handler. -/
theorem invokeTrampoline_handled {handler : ObjectRef}
    (hr : (s.world.content m).replaced? = some replaced)
    (hw : ¬ (core.mode = .perCall ∧ s.thread.inWindow m this = true))
    (hh : s.world.handlerOf v core this = some handler) :
    invokeTrampoline host exec v core m this args s =
      invokeHandler host exec v core handler m this args s := by
  simp only [invokeTrampoline, hr, if_neg hw, hh]

/-! Entering a frame moves neither the world nor the windows, so what the frame of a trampoline
does is settled before it is entered. -/

theorem runCell_inWindow (hr : (s.world.content m).replaced? = some replaced)
    (hmode : (s.world.coreOf v).mode = .perCall) (hw : s.thread.inWindow m this = true) :
    runCell host exec v m this args (s.enter host v m this args) =
      exec v replaced this args (s.enter host v m this args) := by
  have hr' : ((s.enter host v m this args).world.content m).replaced? = some replaced := hr
  rw [runCell_trampoline host exec hr']
  exact invokeTrampoline_inWindow host exec hr' ⟨hmode, hw⟩

theorem runCell_unbound (hr : (s.world.content m).replaced? = some replaced)
    (hh : s.world.handlerOf v (s.world.coreOf v) this = none) :
    runCell host exec v m this args (s.enter host v m this args) =
      exec v replaced this args (s.enter host v m this args) := by
  have hr' : ((s.enter host v m this args).world.content m).replaced? = some replaced := hr
  rw [runCell_trampoline host exec hr']
  exact invokeTrampoline_unbound host exec hr' hh

theorem runCell_handled {handler : ObjectRef}
    (hr : (s.world.content m).replaced? = some replaced)
    (hw : ¬ ((s.world.coreOf v).mode = .perCall ∧ s.thread.inWindow m this = true))
    (hh : s.world.handlerOf v (s.world.coreOf v) this = some handler) :
    runCell host exec v m this args (s.enter host v m this args) =
      invokeHandler host exec v (s.world.coreOf v) handler m this args
        (s.enter host v m this args) := by
  have hr' : ((s.enter host v m this args).world.content m).replaced? = some replaced := hr
  rw [runCell_trampoline host exec hr']
  exact invokeTrampoline_handled host exec hr' hw hh

end

end Equations

/-! ### Keeping a record changes nothing else -/

/-- Forget the record. -/
def State.unlogged (s : State β (Logged β H)) : State β H := ⟨s.world, s.thread, s.host.1⟩

/-- An act on a logged host does to the rest of the state what an act without record does. -/
def Logs (act : Act β (Logged β H) α) (plain : Act β H α) : Prop :=
  ∀ s, (act s).1 = (plain s.unlogged).1 ∧ (act s).2.unlogged = (plain s.unlogged).2

namespace Logs

variable {host : Host β H} {exec : Executor β (Logged β H)} {plain : Executor β H}

theorem invokeSlot (h : ∀ v m this args, Logs (exec v m this args) (plain v m this args))
    (v : VmRef) (this : ObjectRef) (slot : Nat) (args : List Value) :
    Logs (invokeSlot exec v this slot args) (invokeSlot plain v this slot args) := by
  intro s
  show _ = (Interception.invokeSlot plain v this slot args ⟨s.world, s.thread, s.host.1⟩).1 ∧ _
  unfold Interception.invokeSlot
  simp only [State.unlogged]
  split
  · exact h v _ this args s
  · exact ⟨rfl, rfl⟩

theorem invokeVirtual (h : ∀ v m this args, Logs (exec v m this args) (plain v m this args))
    (v : VmRef) (this : ObjectRef) (name : String) (args : List Value) :
    Logs (invokeVirtual exec v this name args) (invokeVirtual plain v this name args) := by
  intro s
  unfold Interception.invokeVirtual
  simp only [State.unlogged]
  split
  · exact invokeSlot h v this _ args s
  · exact ⟨rfl, rfl⟩

theorem invokeDirect (h : ∀ v m this args, Logs (exec v m this args) (plain v m this args))
    (v : VmRef) (this : ObjectRef) (name : String) (args : List Value) :
    Logs (invokeDirect exec v this name args) (invokeDirect plain v this name args) := by
  intro s
  unfold Interception.invokeDirect
  simp only [State.unlogged]
  split
  · exact h v _ this args s
  · exact ⟨rfl, rfl⟩

theorem invokeMethod (h : ∀ v m this args, Logs (exec v m this args) (plain v m this args))
    (v : VmRef) (caller : Option ClassRef) (m : CellRef) (this : ObjectRef)
    (args : List Value) :
    Logs (invokeMethod exec v caller m this args) (invokeMethod plain v caller m this args) := by
  intro s
  unfold Interception.invokeMethod
  simp only [State.unlogged]
  split
  · exact ⟨rfl, rfl⟩
  · split
    · exact ⟨rfl, rfl⟩
    · exact h v m this args s

theorem invokeHandler (h : ∀ v m this args, Logs (exec v m this args) (plain v m this args))
    (v : VmRef) (core : Core) (handler : ObjectRef) (m : CellRef) (this : ObjectRef)
    (args : List Value) :
    Logs (invokeHandler host.logged exec v core handler m this args)
      (invokeHandler host plain v core handler m this args) := by
  intro s
  obtain ⟨h1, h2⟩ := invokeVirtual h v handler handlerMethod
    (.object this :: .method m :: args) (s.begin host.logged v core this m)
  rw [invokeHandler_eq, invokeHandler_eq]
  refine ⟨h1, ?_⟩
  have hfinish : ∀ (t : State β (Logged β H)) (g : Guard β),
      (t.finish host.logged g).unlogged = t.unlogged.finish host g := fun _ _ => rfl
  rw [hfinish, h2]
  rfl

theorem invokeTrampoline
    (h : ∀ v m this args, Logs (exec v m this args) (plain v m this args))
    (v : VmRef) (core : Core) (m : CellRef) (this : ObjectRef) (args : List Value) :
    Logs (invokeTrampoline host.logged exec v core m this args)
      (invokeTrampoline host plain v core m this args) := by
  intro s
  cases hr : (s.world.content m).replaced? with
  | none =>
    simp only [Interception.invokeTrampoline, State.unlogged, hr]
    exact h v m this args s
  | some replaced =>
    have hr' : (s.unlogged.world.content m).replaced? = some replaced := hr
    by_cases hw : core.mode = .perCall ∧ s.thread.inWindow m this = true
    · have hw' : core.mode = .perCall ∧ s.unlogged.thread.inWindow m this = true := hw
      rw [invokeTrampoline_inWindow _ _ hr hw, invokeTrampoline_inWindow _ _ hr' hw']
      exact h v replaced this args s
    · have hw' : ¬ (core.mode = .perCall ∧ s.unlogged.thread.inWindow m this = true) := hw
      cases hh : s.world.handlerOf v core this with
      | none =>
        have hh' : s.unlogged.world.handlerOf v core this = none := hh
        rw [invokeTrampoline_unbound _ _ hr hh, invokeTrampoline_unbound _ _ hr' hh']
        exact h v replaced this args s
      | some handler =>
        have hh' : s.unlogged.world.handlerOf v core this = some handler := hh
        rw [invokeTrampoline_handled _ _ hr hw hh, invokeTrampoline_handled _ _ hr' hw' hh']
        exact invokeHandler h v core handler m this args s

variable (host) in
theorem op (h : ∀ v m this args, Logs (exec v m this args) (plain v m this args))
    (o : Op β) : Logs (o.run host.logged exec) (o.run host plain) := by
  cases o with
  | callVirtual v this name args => exact invokeVirtual h v this name args
  | callSlot v this slot args => exact invokeSlot h v this slot args
  | callDirect v this name args => exact invokeDirect h v this name args
  | callMethod v caller m this args => exact invokeMethod h v caller m this args
  | execute v m this args => exact h v m this args
  | callTrampoline v core m this args => exact invokeTrampoline h v core m this args
  | define v d =>
    intro s
    simp only [Op.run, State.unlogged]
    split <;> exact ⟨rfl, rfl⟩
  | setField o i x =>
    intro s
    simp only [Op.run, State.unlogged]
    split <;> exact ⟨rfl, rfl⟩
  | _ => exact fun s => ⟨rfl, rfl⟩

theorem run (h : ∀ v m this args, Logs (exec v m this args) (plain v m this args))
    (p : Program β H α) : Logs (p.lift.run host.logged exec) (p.run host plain) := by
  induction p with
  | pure a => exact fun s => ⟨rfl, rfl⟩
  | fail e => exact fun s => ⟨rfl, rfl⟩
  | panic text => exact fun s => ⟨rfl, rfl⟩
  | host update next ih =>
    intro s
    exact ih s.world s.host.1 { s with host := (update s.world s.host.1, s.host.2) }
  | call o next ih =>
    intro s
    have ho := op host h o s
    simp only [Program.lift, Program.run]
    generalize o.run host.logged exec s = x at ho ⊢
    generalize o.run host plain s.unlogged = y at ho ⊢
    obtain ⟨r, t⟩ := x
    obtain ⟨r', t'⟩ := y
    obtain ⟨rfl, rfl⟩ := ho
    cases r with
    | value a => exact ih (.ok a) (t.notify host.logged (.performed o))
    | error e => exact ih (.error e) (t.notify host.logged (.performed o))
    | panic text => exact ⟨rfl, rfl⟩
    | endless => exact ⟨rfl, rfl⟩

end Logs

/-- Running a cell with a record is running it without, beside the record. -/
theorem execute_logged (host : Host β H) (n : Nat) (v : VmRef) (m : CellRef)
    (this : ObjectRef) (args : List Value) :
    Logs (execute host.logged n v m this args) (execute host n v m this args) := by
  induction n generalizing v m this args with
  | zero => exact fun s => ⟨rfl, rfl⟩
  | succ n ih =>
    intro s
    by_cases hd : s.thread.depth < s.world.maxDepth v
    · have hd' : s.unlogged.thread.depth < s.unlogged.world.maxDepth v := hd
      rw [execute_admitted host.logged hd, execute_admitted host hd']
      have hcell : Logs (runCell host.logged (execute host.logged n) v m this args)
          (runCell host (execute host n) v m this args) := by
        intro t
        unfold runCell
        simp only [State.unlogged]
        split
        · exact Logs.run ih _ t
        · exact ⟨rfl, rfl⟩
        · exact Logs.invokeTrampoline ih v _ m this args t
      obtain ⟨h1, h2⟩ := hcell (s.enter host.logged v m this args)
      refine ⟨h1, ?_⟩
      have hleave : ∀ t : State β (Logged β H),
          (t.leave host.logged v m this).unlogged = t.unlogged.leave host v m this :=
        fun _ => rfl
      rw [hleave, h2]
      rfl
    · have hr : s.world.maxDepth v < s.thread.depth + 1 := by omega
      have hr' : s.unlogged.world.maxDepth v < s.unlogged.thread.depth + 1 := hr
      rw [execute_refused host.logged hr, execute_refused host hr']
      exact ⟨rfl, rfl⟩

/-- Running a program with a record is running it without, beside the record. -/
theorem start_logged (host : Host β H) (p : Program β H α) :
    Logs (p.lift.start host.logged) (p.start host) := fun s =>
  Logs.run (fun v m this args => execute_logged host s.room v m this args) p s

/-! ### Trails -/

/-- The world, the thread and the record of a run so far. -/
structure Trail (β : Type) where
  world : World β
  thread : Thread
  log : List (Moment β)

/-- The part of a state that bodies cannot change by themselves. -/
def State.trail (s : State β (Logged β H)) : Trail β := ⟨s.world, s.thread, s.host.2⟩

namespace Trail

variable (t : Trail β)

/-- Write down an event. -/
def note (e : Event β) : Trail β := { t with log := ⟨e, t.world, t.thread⟩ :: t.log }

/-- Into an admitted frame. -/
def enter (v : VmRef) (m : CellRef) (this : ObjectRef) (args : List Value) : Trail β :=
  ({ t with thread := { t.thread with depth := t.thread.depth + 1 } } : Trail β).note
    (.entered v m this args)

/-- Out of a frame. -/
def leave (v : VmRef) (m : CellRef) (this : ObjectRef) : Trail β :=
  ({ t with thread := { t.thread with depth := t.thread.depth - 1 } } : Trail β).note
    (.left v m this)

/-- The guard of a window opened here. -/
def guardFor (v : VmRef) (core : Core) (this : ObjectRef) (m : CellRef) : Guard β :=
  (t.world.openWindow t.thread v core this m).1

/-- Into the window of an intercepted call. -/
def begin (v : VmRef) (core : Core) (this : ObjectRef) (m : CellRef) : Trail β :=
  let w := (t.world.openWindow t.thread v core this m).2
  ({ t with world := w.1, thread := w.2 } : Trail β).note (.opened (t.guardFor v core this m))

/-- Out of the window of an intercepted call. -/
def finish (g : Guard β) : Trail β :=
  let w := t.world.closeWindow t.thread g
  ({ t with world := w.1, thread := w.2 } : Trail β).note (.closed g)

end Trail

section

variable (s : State β (Logged β H)) (host : Host β H)

@[simp] theorem trail_notify (e : Event β) :
    (s.notify host.logged e).trail = s.trail.note e := rfl

@[simp] theorem trail_enter (v : VmRef) (m : CellRef) (this : ObjectRef) (args : List Value) :
    (s.enter host.logged v m this args).trail = s.trail.enter v m this args := rfl

@[simp] theorem trail_leave (v : VmRef) (m : CellRef) (this : ObjectRef) :
    (s.leave host.logged v m this).trail = s.trail.leave v m this := rfl

@[simp] theorem trail_begin (v : VmRef) (core : Core) (this : ObjectRef) (m : CellRef) :
    (s.begin host.logged v core this m).trail = s.trail.begin v core this m := rfl

@[simp] theorem trail_finish (g : Guard β) :
    (s.finish host.logged g).trail = s.trail.finish g := rfl

end

end Interception
