/-
Trampolines of objects without a handler.

An object can have a trampoline in its slot and no handler: it was made before its class was
patched, its handler field was written over, or its nearest row is not settled while a row
further up put the trampoline into the table it inherits.  A trampoline then goes to the cell
that it replaced, whichever way windows are opened, and if that is a trampoline again, so does
that one.

So a call runs down the chain of originals, one frame for each, and nothing else happens on the
way: no window is opened and no handler is called, since the world and the windows of the thread
are the same at every link, and with them the answer that there is no handler.  The induction is
on the chain.  The state changes only by the frames entered, and `inFrames` keeps them.
-/
import Interception.Proofs.ByHand
import Interception.Proofs.Stacking
import Interception.Proofs.Depths
import Interception.Proofs.Ownership

namespace Interception

variable {β H : Type}

/-! ### Frames within frames -/

section Frames

variable (host : Host β H) (v : VmRef) (this : ObjectRef) (args : List Value)

/-- Into a frame for each of these cells, the first one outermost. -/
def State.enterAll (path : List CellRef) (s : State β H) : State β H :=
  path.foldl (fun x m => x.enter host v m this args) s

/-- Out of the frames of these cells, the first one last. -/
def State.leaveAll (path : List CellRef) (s : State β H) : State β H :=
  path.foldr (fun m x => x.leave host v m this) s

/-- Within a frame for each of these cells, the first one outermost. -/
def inFrames (path : List CellRef) (act : Act β H Value) : Act β H Value :=
  path.foldr (fun m inner => inFrame host v m this args inner) act

theorem inFrames_eq (path : List CellRef) (act : Act β H Value) (s : State β H) :
    inFrames host v this args path act s =
      ((act (s.enterAll host v this args path)).1,
        (act (s.enterAll host v this args path)).2.leaveAll host v this path) := by
  induction path generalizing s with
  | nil => rfl
  | cons m path ih =>
    show inFrame host v m this args (inFrames host v this args path act) s = _
    rw [inFrame, ih]
    rfl

theorem world_enterAll (path : List CellRef) (s : State β H) :
    (s.enterAll host v this args path).world = s.world := by
  induction path generalizing s with
  | nil => rfl
  | cons m path ih => exact ih (s.enter host v m this args)

theorem thread_enterAll (path : List CellRef) (s : State β H) :
    (s.enterAll host v this args path).thread =
      { s.thread with depth := s.thread.depth + path.length } := by
  induction path generalizing s with
  | nil => rfl
  | cons m path ih =>
    have hdepth : s.thread.depth + 1 + path.length = s.thread.depth + (m :: path).length := by
      rw [List.length_cons]
      omega
    rw [← hdepth]
    exact ih (s.enter host v m this args)

theorem world_leaveAll (path : List CellRef) (s : State β H) :
    (s.leaveAll host v this path).world = s.world := by
  induction path with
  | nil => rfl
  | cons m path ih => exact ih

theorem windows_leaveAll (path : List CellRef) (s : State β H) :
    (s.leaveAll host v this path).thread.windows = s.thread.windows := by
  induction path with
  | nil => rfl
  | cons m path ih => exact ih

end Frames

/-- Everything that a host was told so far, newest first. -/
def State.events (s : State β (Logged β H)) : List (Event β) := s.host.2.map Moment.event

section Events

variable (host : Host β H) (v : VmRef) (this : ObjectRef) (args : List Value)

theorem events_enterAll (path : List CellRef) (s : State β (Logged β H)) :
    (s.enterAll host.logged v this args path).events =
      (path.map fun m => .entered v m this args).reverse ++ s.events := by
  induction path generalizing s with
  | nil => rfl
  | cons m path ih =>
    have hrest : (s.enterAll host.logged v this args (m :: path)).events = _ :=
      ih (s.enter host.logged v m this args)
    rw [hrest, List.map_cons, List.reverse_cons, List.append_assoc]
    rfl

theorem events_leaveAll (path : List CellRef) (s : State β (Logged β H)) :
    (s.leaveAll host.logged v this path).events = path.map (.left v · this) ++ s.events := by
  induction path with
  | nil => rfl
  | cons m path ih => exact congrArg (Event.left v m this :: ·) ih

end Events

/-! ### The chain of originals -/

namespace World

variable {w : World β} {k : Nat} {t u : CellRef}

/-- The cells passed in following this many originals, the last one included. -/
def originals (w : World β) : Nat → CellRef → List CellRef
  | 0, t => [t]
  | k + 1, t => t :: w.originals k (w.original t)

theorem length_originals (w : World β) (k : Nat) (t : CellRef) :
    (w.originals k t).length = k + 1 := by
  induction k generalizing t with
  | zero => rfl
  | succ k ih => rw [originals, List.length_cons, ih]

theorem original_of_replaced {o : CellRef} (ht : (w.content t).replaced? = some o) :
    w.original t = o := by
  rw [original, ht]
  rfl

/-- The last of them is no trampoline. -/
theorem EndsAt.plain (h : w.EndsAt k t u) : (w.content u).replaced? = none := by
  induction h with
  | here ht => exact ht
  | through _ _ ih => exact ih

/-- All the others are. -/
theorem EndsAt.isTrampoline (h : w.EndsAt k t u) :
    ∀ m ∈ (w.originals k t).take k, (w.content m).isTrampoline = true := by
  induction h with
  | here _ => exact fun m hm => absurd hm List.not_mem_nil
  | through ht _ ih =>
    intro m hm
    rw [originals, List.take_succ_cons, original_of_replaced ht] at hm
    rcases List.mem_cons.mp hm with rfl | hm
    · exact Descriptor.isTrampoline_of_replaced? ht
    · exact ih m hm

end World

/-! ### Ways to be without a handler -/

namespace World

variable {w w' : World β} {v : VmRef} {core : Core} {o : ObjectRef} {c : ClassRef} {i k : Nat}

/-- The field that the object's handler is read from. -/
def handlerField? (w : World β) (v : VmRef) (core : Core) (o : ObjectRef) : Option Nat :=
  if w.isProxyInstance v o then some (w.vms.get v).proxyOffset
  else (w.interceptionOf core.registry (w.classOf o)).map (·.2.handlerOffset)

/-- An object has no handler where that field is missing or holds something else. -/
theorem handlerOf_eq_none_iff : w.handlerOf v core o = none ↔
    ∀ k, w.handlerField? v core o = some k → ∀ h, w.field? o k ≠ some (.object h) := by
  have hread : w.handlerOf v core o =
      (w.handlerField? v core o).bind fun k => (w.field? o k).bind Value.asObject? := by
    rw [handlerOf, handlerField?]
    split
    · rfl
    · rw [Option.bind_map]
      rfl
  rw [hread, Option.eq_none_iff_forall_ne_some]
  simp only [ne_eq, Option.bind_eq_some_iff, Value.asObject?_eq_some_iff]
  constructor
  · exact fun h k hk x hx => h x ⟨k, hk, _, hx, rfl⟩
  · rintro h x ⟨k, hk, _, hx, rfl⟩
    exact h k hk x hx

/-- A row that is not settled leaves the objects it speaks for without, whatever the rows further
up are settled for. -/
theorem handlerOf_of_unsettled (hp : w.isProxyInstance v o = false)
    (hi : w.nearestEntry core.registry (w.classOf o) = some i)
    (hopen : (w.entry core.registry i).resolution = none) : w.handlerOf v core o = none := by
  have hnone : w.interceptionOf core.registry (w.classOf o) = none := by
    rw [interceptionOf, hi, Option.bind_some, resolvedFor, hopen]
    rfl
  refine handlerOf_eq_none_iff.mpr fun k hk => ?_
  rw [handlerField?, hp, hnone] at hk
  cases hk

theorem OnlyObjects.handlerField? (h : w.OnlyObjects w') (ho : w.objects.Live o) (v : VmRef)
    (core : Core) : w'.handlerField? v core o = w.handlerField? v core o := by
  have hclass : w'.classOf o = w.classOf o := (h.objects o ho).2.1
  have halike := h.alike v
  rw [World.handlerField?, World.handlerField?, isProxyInstance, isProxyInstance, hclass, h.classes,
    halike.proxy, halike.proxyOffset, h.interceptionOf]

/-- Writing anything but an object over the field takes the handler away. -/
theorem handlerOf_of_setField {x : Value} (hset : w.setField o k x = .ok w')
    (hx : x.asObject? = none) (hk : w.handlerField? v core o = some k) :
    w'.handlerOf v core o = none := by
  have ho : w.objects.Live o := by
    by_contra hdead
    rw [setField, Store.get_of_not_live hdead] at hset
    cases hset
  obtain ⟨hself, -⟩ := field?_setField hset
  refine handlerOf_eq_none_iff.mpr fun j hj h hfield => ?_
  rw [(onlyObjects_setField hset).handlerField? ho, hk] at hj
  obtain rfl : k = j := Option.some.inj hj
  rw [hself] at hfield
  rw [Option.some.inj hfield] at hx
  cases hx

/-- None of the object's fields holds an object. -/
def Vacant (w : World β) (o : ObjectRef) : Prop :=
  ∀ x ∈ (w.objects.get o).fields, x.asObject? = none

theorem Vacant.handlerOf (h : w.Vacant o) (v : VmRef) (core : Core) :
    w.handlerOf v core o = none := by
  refine handlerOf_eq_none_iff.mpr fun k _ x hx => ?_
  have hnone := h _ (List.mem_of_getElem? hx)
  cases hnone

/-- An object made while no row spoke for its class has no handler after any class was patched. -/
theorem handlerOf_patch_allocate (hready : (w.classes.get c).initialized = true)
    (hnone : w.interceptionOf (w.coreOf v).registry c = none) (u : VmRef) (core : Core)
    (a : ClassRef) (v' : VmRef) (core' : Core) :
    ((w.allocate v c).2.patch u core a).2.handlerOf v' core' w.objects.next = none := by
  have hobjects : ((w.allocate v c).2.patch u core a).2.objects = (w.allocate v c).2.objects := by
    have hp := patches_patch (w.allocate v c).2 u core a
    generalize ((w.allocate v c).2.patch u core a).2 = x at hp
    cases hp with
    | nothing => rfl
    | installs _ _ _ _ => rfl
  have halone : (w.allocate v c).2 = (w.newObject c).2.counted v :=
    congrArg Prod.snd (allocateWithin_alone hready hnone)
  refine Vacant.handlerOf (fun x hx => ?_) v' core'
  rw [hobjects, halone] at hx
  have hx' : x ∈ ((w.newObject c).2.objects.get w.objects.next).fields := hx
  rw [get_newObject] at hx'
  rw [List.eq_of_mem_replicate hx']
  rfl

end World

/-! ### Falling through -/

section Call

variable (host : Host β H) {s : State β H} {v : VmRef} {this : ObjectRef} (args : List Value)
  {k : Nat} {t o u : CellRef}

/-- What running a cell that is no trampoline comes to. -/
theorem runCell_plain (exec : Executor β H) (v : VmRef) (this : ObjectRef)
    (hu : (s.world.content u).replaced? = none) :
    match (s.world.content u).code with
    | .native b => runCell host exec v u this args s = (host.body b v this args).run host exec s
    | .abstract => runCell host exec v u this args s =
        (.error (.abstractMethod (s.world.content u).qualifiedName), s)
    | .trampoline _ => False := by
  split
  · rename_i b hcode
    exact runCell_native host exec hcode
  · rename_i hcode
    exact runCell_abstract host exec hcode
  · rename_i o hcode
    rw [Descriptor.replaced?_eq_some_iff.mpr hcode] at hu
    cases hu

/-- Without a handler the frame of a trampoline goes to the cell replaced. -/
theorem call_unattended (ht : (s.world.content t).replaced? = some o)
    (hnone : s.world.handlerOf v (s.world.coreOf v) this = none)
    (hd : s.thread.depth < s.world.maxDepth v) :
    call host v t this args s = inFrame host v t this args (call host v o this args) s := by
  rw [call_admitted host hd]
  exact inFrame_congr host (runCell_unbound host _ ht hnone)

/-- With room for the whole chain, what it ends at is run within a frame for each link. -/
theorem call_chain (hends : s.world.EndsAt k t u)
    (hnone : s.world.handlerOf v (s.world.coreOf v) this = none)
    (hroom : s.thread.depth + k < s.world.maxDepth v) :
    call host v t this args s =
      inFrames host v this args (s.world.originals k t) (runCell host (call host) v u this args)
        s := by
  generalize hw : s.world = w at *
  induction hends generalizing s with
  | here _ =>
    subst hw
    exact call_admitted host hroom
  | @through k t o u ht _ ih =>
    subst hw
    rw [call_unattended host args ht hnone (by omega), World.originals,
      World.original_of_replaced ht]
    refine inFrame_congr host (ih (s := s.enter host v t this args) rfl ?_)
    show s.thread.depth + 1 + k < s.world.maxDepth v
    omega

/-- With less room, the first link that does not fit is refused. -/
theorem call_chain_refused (hends : s.world.EndsAt k t u)
    (hnone : s.world.handlerOf v (s.world.coreOf v) this = none)
    (hd : s.thread.depth ≤ s.world.maxDepth v)
    (hover : s.world.maxDepth v < s.thread.depth + k + 1) :
    ∃ m, (s.world.originals k t)[s.world.maxDepth v - s.thread.depth]? = some m ∧
      call host v t this args s =
        inFrames host v this args
          ((s.world.originals k t).take (s.world.maxDepth v - s.thread.depth))
          (refuse host v m this) s := by
  generalize hw : s.world = w at *
  induction hends generalizing s with
  | @here t _ =>
    subst hw
    have hzero : s.world.maxDepth v - s.thread.depth = 0 := by omega
    rw [hzero]
    exact ⟨t, rfl, call_refused host hover⟩
  | @through k t o u ht _ ih =>
    subst hw
    rw [World.originals, World.original_of_replaced ht]
    by_cases hfull : s.thread.depth = s.world.maxDepth v
    · rw [hfull, Nat.sub_self]
      exact ⟨t, rfl, call_refused host (by omega)⟩
    · have hlt : s.thread.depth < s.world.maxDepth v := by omega
      have hdepth : (s.enter host v t this args).thread.depth = s.thread.depth + 1 := rfl
      have hsteps : s.world.maxDepth v - s.thread.depth =
          s.world.maxDepth v - (s.thread.depth + 1) + 1 := by omega
      obtain ⟨m, hm, hcall⟩ := ih (s := s.enter host v t this args) rfl
        (by rw [hdepth]; omega) (by rw [hdepth]; omega)
      rw [hdepth] at hm hcall
      rw [hsteps]
      refine ⟨m, hm, ?_⟩
      rw [call_unattended host args ht hnone hlt]
      exact inFrame_congr host hcall

end Call

/-- A call comes back to the depth that it was made at. -/
theorem depth_call (host : Host β H) (v : VmRef) (m : CellRef) (this : ObjectRef)
    (args : List Value) (s : State β (Logged β H)) :
    (call host.logged v m this args s).2.thread.depth = s.thread.depth := by
  have hlevel := (conducts_level host).runs_execute (fun _ _ _ _ => Program.uses_anything _) s.room
    v m this args s (Nat.le_refl _)
  exact Trail.depth_of_level hlevel

/-- **Without a handler a trampoline is what it stands for in the end.**  Let a cell be run, in any
state and whichever way its machine opens windows, on an object that has no handler, and let
following originals from the cell lead in `k` steps to one that is no trampoline.  If `k + 1` frames
fit, then a frame is entered for each cell of the chain, and nothing else happens: the world, with
the counters of all entries, and the windows of the thread are as they were, and the record shows
these frames alone, so no window was opened and no handler was called.  In the last frame the body
at the end of the chain is run on the object with the same arguments, or there is none and that is
the error; how this ends is how the call ends, and after it the frames are left and nothing else.
If the frames do not fit, then as many are entered as do, all of them for trampolines, the next one
is refused with the depth above the limit, and the world and the thread are as they were. -/
theorem World.EndsAt.falls_through (host : Host β H) {s : State β (Logged β H)} {v : VmRef}
    {this : ObjectRef} {k : Nat} {t u : CellRef} (hends : s.world.EndsAt k t u)
    (hnone : s.world.handlerOf v (s.world.coreOf v) this = none)
    (hd : s.thread.depth ≤ s.world.maxDepth v) (args : List Value) :
    let path := s.world.originals k t
    let outcome := call host.logged v t this args s
    (s.thread.depth + k + 1 ≤ s.world.maxDepth v →
      let inner := s.enterAll host.logged v this args path
      inner.world = s.world ∧
      inner.thread = { s.thread with depth := s.thread.depth + k + 1 } ∧
      inner.events = (path.map fun m => .entered v m this args).reverse ++ s.events ∧
      ∃ last : Ending Value × State β (Logged β H),
        (match (s.world.content u).code with
          | .native b =>
            last = (host.body b v this args).lift.run host.logged (call host.logged) inner
          | .abstract =>
            last = (.error (.abstractMethod (s.world.content u).qualifiedName), inner)
          | .trampoline _ => False) ∧
        outcome.1 = last.1 ∧ outcome.2.world = last.2.world ∧
        outcome.2.thread = { last.2.thread with depth := s.thread.depth } ∧
        outcome.2.events = path.map (.left v · this) ++ last.2.events) ∧
    (s.world.maxDepth v < s.thread.depth + k + 1 →
      let fitting := path.take (s.world.maxDepth v - s.thread.depth)
      (∀ m ∈ fitting, (s.world.content m).isTrampoline = true) ∧
      outcome.1 = .error (.stackOverflow (s.world.maxDepth v + 1)) ∧
      outcome.2.world = s.world ∧ outcome.2.thread = s.thread ∧
      ∃ m, path[s.world.maxDepth v - s.thread.depth]? = some m ∧
        outcome.2.events = fitting.map (.left v · this) ++ .refused v m this ::
          ((fitting.map fun m => .entered v m this args).reverse ++ s.events)) := by
  intro path outcome
  have hdepth : outcome.2.thread.depth = s.thread.depth := depth_call host v t this args s
  have hlength : path.length = k + 1 := s.world.length_originals k t
  have hthread : ∀ t : Thread, outcome.2.thread.windows = t.windows →
      outcome.2.thread = { t with depth := s.thread.depth } := fun t hwindows => by
    rw [← hdepth, ← hwindows]
  refine ⟨fun hroom => ?_, fun hover => ?_⟩
  · have hcall : outcome = _ := call_chain host.logged args hends hnone hroom
    rw [inFrames_eq] at hcall
    have hend : ((s.enterAll host.logged v this args path).world.content u).replaced? = none := by
      rw [world_enterAll]
      exact hends.plain
    have hplain := runCell_plain host.logged args (call host.logged) v this hend
    rw [world_enterAll] at hplain
    refine ⟨world_enterAll .., ?_, events_enterAll ..,
      runCell host.logged (call host.logged) v u this args
        (s.enterAll host.logged v this args path), hplain, by rw [hcall], ?_, ?_, ?_⟩
    · rw [thread_enterAll, hlength]
      rfl
    · rw [hcall]
      exact world_leaveAll ..
    · refine hthread _ ?_
      rw [hcall]
      exact windows_leaveAll ..
    · rw [hcall]
      exact events_leaveAll ..
  · obtain ⟨m, hm, hcall'⟩ :=
      call_chain_refused host.logged args hends hnone hd hover
    have hcall : outcome = _ := hcall'
    rw [inFrames_eq] at hcall
    intro fitting
    have hfits : fitting.length = s.world.maxDepth v - s.thread.depth := by
      rw [List.length_take, hlength]
      omega
    refine ⟨fun x hx => ?_, ?_, ?_, ?_, m, hm, ?_⟩
    · have hlinks : fitting <+: path.take k := List.take_prefix_take_left (by omega)
      exact hends.isTrampoline x (hlinks.subset hx)
    · rw [hcall]
      show Ending.error (.stackOverflow
        ((s.enterAll host.logged v this args fitting).thread.depth + 1)) = _
      rw [thread_enterAll, hfits]
      show Ending.error (.stackOverflow
        (s.thread.depth + (s.world.maxDepth v - s.thread.depth) + 1)) = _
      rw [Nat.add_sub_cancel' hd]
    · rw [hcall]
      exact (world_leaveAll ..).trans (world_enterAll ..)
    · refine (hthread s.thread ?_).trans rfl
      rw [hcall]
      refine (windows_leaveAll ..).trans ?_
      show (s.enterAll host.logged v this args fitting).thread.windows = _
      rw [thread_enterAll]
    · rw [hcall]
      refine (events_leaveAll ..).trans (congrArg _ ?_)
      exact congrArg (Event.refused v m this :: ·) (events_enterAll ..)

/-- Asking for a field of the object to be written writes it. -/
theorem setField_start (host : Host β H) {s : State β H} {o : ObjectRef} {i : Nat} {x : Value}
    (hi : i < (s.world.objects.get o).fields.length) :
    s.world.setField o i x =
      .ok ((Program.perform (.setField o i x) : Program β H Unit).start host s).2.world := by
  simp only [Program.start, Program.perform, Program.run, Op.run, World.setField, if_pos hi]
  rfl

namespace Demo

/-- A new machine with these rows, which lets 32 calls nest. -/
def machine (rows : List Row) (mode : SwapMode) : State Body (Logged Body Tally) :=
  ⟨(World.newVm {} { rows, mode, maxDepth := 32 }).2, {}, ({}, [])⟩

/-- Rows for both activities, of which the one below names handlers that no class is there for. -/
def skippedRows : List Row :=
  [⟨activityName, [methodName], handlerName⟩, ⟨subactivityName, [methodName], "App.NoHandler"⟩]

/-- An instance of the class below, its handler field written over. -/
def unseated (mode : SwapMode) : State Body (Logged Body Tally) :=
  ((Program.perform (.setField ⟨0⟩ 0 .null)).start host.logged (stacked mode)).2

/-- An instance of the class below, whose row was skipped. -/
def skipped (mode : SwapMode) : State Body (Logged Body Tally) :=
  ((stacking ⟨0⟩).lift.start host.logged (machine skippedRows mode)).2

/-- An instance older than the patch of its class. -/
def delayed (mode : SwapMode) : State Body (Logged Body Tally) :=
  { postponed mode with world := belated mode }

theorem world_delayed (mode : SwapMode) : (delayed mode).world = belated mode := by
  rw [delayed]

/-- The instance was made while the row was still open. -/
theorem handlerOf_belated (mode : SwapMode) (v : VmRef) (core : Core) :
    (belated mode).handlerOf v core ⟨0⟩ = none := by
  have hopen : ((postponed mode).world.classes.get ⟨2⟩).initialized = true ∧
      (postponed mode).world.interceptionOf ((postponed mode).world.coreOf ⟨0⟩).registry ⟨2⟩ =
        none ∧ (postponed mode).world.objects.next = ⟨0⟩ := by
    cases mode <;> decide +kernel
  obtain ⟨hready, hrow, hnext⟩ := hopen
  have hnone := World.handlerOf_patch_allocate hready hrow ⟨0⟩ ((unstaffed mode).coreOf ⟨0⟩) ⟨2⟩ v
    core
  rw [hnext, ← unstaffed, ← belated] at hnone
  exact hnone

/-- The method is run behind these trampolines and nothing else is, unless it has no room. -/
structure RunsAlone (s : State Body (Logged Body Tally)) (k : Nat) (t u : CellRef) : Prop where
  ends : s.world.EndsAt k t u
  unbound : s.world.handlerOf ⟨0⟩ (s.world.coreOf ⟨0⟩) ⟨0⟩ = none
  result : (call host.logged ⟨0⟩ t ⟨0⟩ [] s).1 = .value .null
  world : (call host.logged ⟨0⟩ t ⟨0⟩ [] s).2.world = s.world
  events : (call host.logged ⟨0⟩ t ⟨0⟩ [] s).2.events =
    (s.world.originals k t).map (.left ⟨0⟩ · ⟨0⟩) ++
      ((s.world.originals k t).map fun m => .entered ⟨0⟩ m ⟨0⟩ []).reverse ++ s.events
  refused : (call host.logged ⟨0⟩ t ⟨0⟩ [] { s with thread := { depth := 32 - k } }).1 =
    .error (.stackOverflow 33)

/-- No handler is entered for an instance that lost its handler, for one below a row that was
skipped, and for one that is older than the patch. -/
theorem runsAlone_unattended :
    (∀ mode, RunsAlone (unseated mode) 2 ⟨3⟩ ⟨1⟩) ∧
    (∀ mode, RunsAlone (skipped mode) 1 ⟨2⟩ ⟨1⟩) ∧
    (∀ mode, RunsAlone (delayed mode) 1 ⟨2⟩ ⟨0⟩) := by
  have runs : ∀ {s : State Body (Logged Body Tally)} {k : Nat} {t u : CellRef},
      s.world.handlerOf ⟨0⟩ (s.world.coreOf ⟨0⟩) ⟨0⟩ = none → s.world.EndsAt k t u →
      (s.world.content u).code = .native .onResume → s.thread.depth = 0 →
      s.world.maxDepth ⟨0⟩ = 32 → k < 32 → RunsAlone s k t u := by
    intro s k t u hnone hends hcode hdepth hlimit hk
    obtain ⟨hruns, -⟩ := World.EndsAt.falls_through host hends hnone
      (by rw [hdepth]; exact Nat.zero_le _) []
    obtain ⟨hworld, -, hevents, last, hlast, hresult, hafter, -, hleft⟩ :=
      hruns (by rw [hdepth, hlimit]; omega)
    rw [hcode] at hlast
    obtain rfl := hlast
    obtain ⟨-, hrefused⟩ := World.EndsAt.falls_through host
      (s := { s with thread := { depth := 32 - k } }) hends hnone
      (by show 32 - k ≤ s.world.maxDepth ⟨0⟩; omega) []
    obtain ⟨-, hoverflow, -⟩ := hrefused
      (by show s.world.maxDepth ⟨0⟩ < 32 - k + k + 1; omega)
    exact
      { ends := hends
        unbound := hnone
        result := hresult
        world := hafter.trans hworld
        events := by
          rw [hleft, List.append_assoc, ← hevents]
          rfl
        refused := by
          have hlimit' : s.world.maxDepth ⟨0⟩ + 1 = 33 := by rw [hlimit]
          rw [hoverflow, ← hlimit'] }
  refine ⟨fun mode => ?_, fun mode => ?_, fun mode => ?_⟩
  · have hfield : 0 < ((stacked mode).world.objects.get ⟨0⟩).fields.length ∧
        (stacked mode).world.handlerField? ⟨0⟩ ((unseated mode).world.coreOf ⟨0⟩) ⟨0⟩ = some 0 := by
      cases mode <;> decide +kernel
    have hchain : ((unseated mode).world.content ⟨3⟩).replaced? = some ⟨2⟩ ∧
        ((unseated mode).world.content ⟨2⟩).replaced? = some ⟨1⟩ ∧
        ((unseated mode).world.content ⟨1⟩).replaced? = none ∧
        ((unseated mode).world.content ⟨1⟩).code = .native .onResume ∧
        (unseated mode).thread.depth = 0 ∧ (unseated mode).world.maxDepth ⟨0⟩ = 32 := by
      cases mode <;> decide +kernel
    have hset : (stacked mode).world.setField ⟨0⟩ 0 .null = .ok (unseated mode).world := by
      rw [unseated]
      exact setField_start (s := stacked mode) host.logged hfield.1
    obtain ⟨hfirst, hsecond, hlast, hcode, hdepth, hlimit⟩ := hchain
    exact runs (World.handlerOf_of_setField hset rfl hfield.2)
      (.through hfirst (.through hsecond (.here hlast))) hcode hdepth hlimit (by decide)
  · have hrow : (skipped mode).world.isProxyInstance ⟨0⟩ ⟨0⟩ = false ∧
        (skipped mode).world.nearestEntry ((skipped mode).world.coreOf ⟨0⟩).registry
          ((skipped mode).world.classOf ⟨0⟩) = some 1 ∧
        ((skipped mode).world.entry ((skipped mode).world.coreOf ⟨0⟩).registry 1).resolution =
          none := by
      cases mode <;> decide +kernel
    have hchain : ((skipped mode).world.content ⟨2⟩).replaced? = some ⟨1⟩ ∧
        ((skipped mode).world.content ⟨1⟩).replaced? = none ∧
        ((skipped mode).world.content ⟨1⟩).code = .native .onResume ∧
        (skipped mode).thread.depth = 0 ∧ (skipped mode).world.maxDepth ⟨0⟩ = 32 := by
      cases mode <;> decide +kernel
    obtain ⟨hproxy, hnearest, hopen⟩ := hrow
    obtain ⟨hfirst, hlast, hcode, hdepth, hlimit⟩ := hchain
    exact runs (World.handlerOf_of_unsettled hproxy hnearest hopen)
      (.through hfirst (.here hlast)) hcode hdepth hlimit (by decide)
  · have hchain : ((delayed mode).world.content ⟨2⟩).replaced? = some ⟨0⟩ ∧
        ((delayed mode).world.content ⟨0⟩).replaced? = none ∧
        ((delayed mode).world.content ⟨0⟩).code = .native .onResume ∧
        (delayed mode).thread.depth = 0 ∧ (delayed mode).world.maxDepth ⟨0⟩ = 32 := by
      cases mode <;> decide +kernel
    obtain ⟨hfirst, hlast, hcode, hdepth, hlimit⟩ := hchain
    have hnone :
        (delayed mode).world.handlerOf ⟨0⟩ ((delayed mode).world.coreOf ⟨0⟩) ⟨0⟩ = none := by
      rw [world_delayed]
      exact handlerOf_belated mode ⟨0⟩ _
    exact runs hnone (.through hfirst (.here hlast)) hcode hdepth hlimit (by decide)

end Demo

end Interception
