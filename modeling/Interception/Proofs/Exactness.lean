/-
The demonstration is exact.

Between two turns the machine is always the same but for the objects there are and one counter,
and every worker is at the top of its own thread.  So a scene is known by how many workers have
started and how many calls were made.  Each turn takes such a scene to one with one more worker
or one more call, and counts nothing else; a schedule is then played by induction over its turns,
and what is reported at its end depends on the two numbers and not on the order.

A turn is a whole call, so in class-wide mode too a call finds the class armed.  Calls of several
workers that overlap are no schedule of this kind.
-/
import Interception.Proofs.Tallies
import Interception.Proofs.Loading

namespace Interception

/-- What is reached with a record can be played without one. -/
theorem Reached.play {β H α : Type} {host : Host β H} {allowed : Op β → Prop} {w w' : World β}
    {th th' : Thread} {h h' : H} {log : List (Moment β)} {p : Program β H α} {r : Ending α}
    (hs : Reached host allowed ⟨w, th, (h, log)⟩) (hp : p.Uses allowed)
    (hrun : p.start host ⟨w, th, h⟩ = (r, ⟨w', th', h'⟩)) :
    ∃ log', Reached host allowed ⟨w', th', (h', log')⟩ := by
  have hnext := hs.run p hp
  obtain ⟨-, hplain⟩ := start_logged host p ⟨w, th, (h, log)⟩
  have hend : (p.lift.start host.logged ⟨w, th, (h, log)⟩).2.unlogged = ⟨w', th', h'⟩ :=
    hplain.trans (congrArg Prod.snd hrun)
  generalize (p.lift.start host.logged ⟨w, th, (h, log)⟩).2 = x at hnext hend
  obtain ⟨w'', th'', h'', log'⟩ := x
  cases hend
  exact ⟨log', hnext⟩

namespace World

variable {β : Type} {w w' : World β} {v : VmRef} {this handler : ObjectRef} {i : Nat}
  {r : Resolution}

/-- Rows that are not stacked are not so after making objects either. -/
theorem Unstacked.of_onlyObjects (h : w.Unstacked) (ho : w.OnlyObjects w') : w'.Unstacked := by
  intro u c a hc hrow ha
  have hcore : w'.coreOf u = w.coreOf u := (ho.alike u).core
  obtain ⟨n, hn⟩ := ho.vms u
  rw [Registered, hn] at hc
  rw [hcore, ho.rest] at hrow ⊢
  rw [ho.rest] at ha
  exact h u c a hc hrow ha

/-- Counting on an entry has nothing to do with objects. -/
theorem OnlyObjects.modifyEntry (h : w.OnlyObjects w') (g : RegistryRef) (i : Nat)
    (f : Entry → Entry) : (w.modifyEntry g i f).OnlyObjects (w'.modifyEntry g i f) where
  rest := by
    have hrest : w'.modifyEntry g i f =
        ({ w with objects := w'.objects, vms := w'.vms } : World β).modifyEntry g i f :=
      congrArg (·.modifyEntry g i f) h.rest
    exact hrest
  objects := h.objects
  made := h.made
  liveVms := h.liveVms
  vms := h.vms

/-- An object that nobody touched is bound as before. -/
theorem Bound.of_keeps (h : w.Bound v this i r handler) (ho : w.OnlyObjects w')
    (hkept : w.objects.Keeps w'.objects) (hthis : w.objects.Live this)
    (hhandler : w.objects.Live handler) : w'.Bound v this i r handler := by
  have hsame : w'.objects.get this = w.objects.get this := (hkept _ hthis).2
  have hcls : w'.classOf this = w.classOf this := congrArg Object.cls hsame
  obtain ⟨n, hn⟩ := ho.vms v
  refine ⟨?_, ?_, ?_, ?_⟩
  · rw [isProxyInstance, hcls, ho.classes, hn]
    exact h.ordinary
  · have hcore : w'.coreOf v = w.coreOf v := (ho.alike v).core
    rw [hcore, hcls, ho.interceptionOf]
    exact h.row
  · rw [field?, hsame]
    exact h.field
  · exact (congrArg Object.cls (hkept _ hhandler).2).trans h.cls

end World

namespace Demo

/-! ### The machine -/

/-- The world before any worker has started. -/
@[irreducible] def stage (mode : SwapMode) : World Body :=
  match Scene.make mode with
  | .ok s => s.world
  | .error _ => {}

theorem make_eq (mode : SwapMode) :
    Scene.make mode = .ok { world := stage mode, vm := ⟨0⟩, activity := ⟨3⟩ } := by
  unfold stage
  cases mode <;> rfl

/-- What patching the activity settled: it is the fourth class, after the two built-in ones and
its handler. -/
def activityPatch : Resolution := ⟨⟨3⟩, ⟨2⟩, 0, ⟨4⟩, ⟨3⟩⟩

/-- The same world where so many calls have been counted. -/
def played (mode : SwapMode) (k : Nat) : World Body :=
  (stage mode).modifyEntry ⟨0⟩ 0 fun e => { e with calls := k }

theorem played_zero (mode : SwapMode) : played mode 0 = stage mode := by
  unfold played stage
  cases mode <;> rfl

theorem played_called (mode : SwapMode) (k : Nat) :
    (played mode k).modifyEntry ⟨0⟩ 0 Entry.called = played mode (k + 1) :=
  World.modifyEntry_modifyEntry ..

theorem vms_played (mode : SwapMode) (k : Nat) : (played mode k).vms = (stage mode).vms := rfl

theorem unstacked_played (mode : SwapMode) (k : Nat) : (played mode k).Unstacked := by
  unfold played stage
  cases mode <;> exact of_decide_eq_true rfl

theorem registered_stage (mode : SwapMode) : (stage mode).Registered ⟨0⟩ ⟨3⟩ := by
  cases mode <;> decide +kernel

/-- Define both classes. -/
def casting (v : VmRef) : Program Body Tally ClassRef := do
  let _ ← Program.perform (.define v handlerDecl)
  Program.perform (.define v activityDecl)

theorem reached_stage (mode : SwapMode) : ∃ log, Reached host (fun op => op.IsOrdinary = true)
    ⟨stage mode, {}, ({}, log)⟩ := by
  have hmachine : Reached host (fun op => op.IsOrdinary = true) _ :=
    .newVm ({} : Tally) { mode, maxDepth }
  have hcast := hmachine.run (casting ⟨0⟩) (.bind (.perform rfl) fun _ => .perform rfl)
  unfold stage
  cases mode <;> exact ⟨_, hcast⟩

/-- The machine as it is between any two turns. -/
structure Rehearsed (mode : SwapMode) (w : World Body) : Prop where
  unstacked : w.Unstacked
  core : w.coreOf ⟨0⟩ = ⟨⟨0⟩, mode⟩
  limit : w.maxDepth ⟨0⟩ = maxDepth
  registered : w.Registered ⟨0⟩ ⟨3⟩
  ordinary : ((w.classes.get ⟨3⟩).super? == some (w.vms.get ⟨0⟩).proxy) = false
  row : w.interceptionOf ⟨0⟩ ⟨3⟩ = some (0, activityPatch)
  unhandled : w.interceptionOf ⟨0⟩ ⟨2⟩ = none
  /-- Neither the handler class nor anything above it has a row. -/
  free : ∀ a ∈ w.lineage ⟨2⟩, w.ownEntry ⟨0⟩ a = none
  handled : w.handlerBody? ⟨2⟩ = some .invoke
  armed : (w.classes.get ⟨3⟩).table = activityPatch.intercepted
  slot : w.slotOf ⟨3⟩ methodName = some 0
  cell : w.methodAt ⟨3⟩ 0 = some ⟨2⟩
  trampoline : (w.content ⟨2⟩).replaced? = some ⟨1⟩
  original : (w.content ⟨1⟩).code = .native .onResume

/-- Workers make objects, and nothing of this is about objects. -/
theorem Rehearsed.of_played {mode : SwapMode} {k : Nat} {w : World Body}
    (h : (played mode k).OnlyObjects w) : Rehearsed mode w := by
  obtain ⟨n, hn⟩ := h.vms ⟨0⟩
  constructor
  case unstacked => exact (unstacked_played mode k).of_onlyObjects h
  case core =>
    rw [World.coreOf, hn]
    unfold played stage
    cases mode <;> rfl
  case limit =>
    rw [World.maxDepth, hn]
    unfold played stage
    cases mode <;> rfl
  case registered =>
    rw [World.Registered, hn, vms_played]
    exact registered_stage mode
  case ordinary =>
    rw [hn, h.classes]
    unfold played stage
    cases mode <;> rfl
  case free =>
    rw [h.rest]
    unfold played stage
    cases mode <;> exact of_decide_eq_true rfl
  -- The rest is read from classes, tables, cells and the registry alone.
  all_goals
    rw [h.rest]
    unfold played stage
    cases mode <;> rfl

/-! ### One turn -/

/-- A worker is at the top of its own thread, and its activity has a handler. -/
structure Worker.Ready (w : World Body) (worker : Worker) : Prop where
  idle : worker.thread = {}
  live : w.objects.Live worker.object
  cls : w.classOf worker.object = ⟨3⟩
  bound : ∃ handler, w.objects.Live handler ∧ w.Bound ⟨0⟩ worker.object 0 activityPatch handler

namespace Worker.Ready

variable {w w' : World Body} {worker : Worker}

/-- Making objects leaves the others as they are. -/
theorem of_keeps (h : worker.Ready w) (ho : w.OnlyObjects w')
    (hkept : w.objects.Keeps w'.objects) : worker.Ready w' := by
  obtain ⟨handler, hhandler, hbound⟩ := h.bound
  exact
    { idle := h.idle
      live := (hkept _ h.live).1
      cls := (congrArg Object.cls (hkept _ h.live).2).trans h.cls
      bound := ⟨handler, (hkept _ hhandler).1, hbound.of_keeps ho hkept h.live hhandler⟩ }

/-- So does counting a call. -/
theorem of_called (h : worker.Ready w) : worker.Ready (w.modifyEntry ⟨0⟩ 0 Entry.called) := by
  obtain ⟨handler, hhandler, hbound⟩ := h.bound
  exact
    { idle := h.idle
      live := h.live
      cls := h.cls
      bound := ⟨handler, hhandler,
        hbound.shifts (World.shifts_modifyEntry w ⟨0⟩ 0 (fun _ => rfl) fun _ => rfl)⟩ }

end Worker.Ready

namespace Rehearsed

variable {mode : SwapMode} {w : World Body}

/-- A new worker gets an activity and a handler for it. -/
theorem starts (hm : Rehearsed mode w) (hw : w.Sound) : ∃ o w',
    w.allocate ⟨0⟩ ⟨3⟩ = (.value o, w') ∧ w.OnlyObjects w' ∧ w.objects.Keeps w'.objects ∧
      Worker.Ready w' { object := o } := by
  have hrow : w.interceptionOf (w.coreOf ⟨0⟩).registry ⟨3⟩ = some (0, activityPatch) := by
    rw [hm.core]
    exact hm.row
  obtain ⟨o, w', hmake, hmade⟩ := hw.made hm.registered fun hr => by
    rw [hrow] at hr
    cases hr
    rw [hm.core]
    exact hm.unhandled
  have hstep : w.OnlyObjects w' := by
    have hall := World.onlyObjects_allocate w ⟨0⟩ ⟨3⟩
    rwa [hmake] at hall
  have hordinary : w'.isProxyInstance ⟨0⟩ o = false := by
    obtain ⟨n, hn⟩ := hstep.vms ⟨0⟩
    rw [World.isProxyInstance, hmade.cls, hstep.classes, hn]
    exact hm.ordinary
  obtain ⟨handler, hhandler, hbound⟩ := hmade.binds hstep hrow hordinary
  exact ⟨o, w', hmake, hstep, hmade.kept, rfl, hmade.live, hmade.cls, handler, hhandler, hbound⟩

/-- A call returns, counts, and changes nothing else. -/
theorem calls (hm : Rehearsed mode w) (hw : w.Sound) (hf : w.Faithful) {worker : Worker}
    (hready : worker.Ready w) (h : Tally) :
    Program.start (α := Value) host (.perform (.callVirtual ⟨0⟩ worker.object methodName []))
      ⟨w, {}, h⟩ = (.value .null, ⟨w.modifyEntry ⟨0⟩ 0 Entry.called, {}, h.called⟩) := by
  obtain ⟨handler, -, hbound⟩ := hready.bound
  have hroom : maxDepth ≤ w.depthBound := by
    rw [← hm.limit]
    exact w.maxDepth_le_depthBound _
  obtain ⟨n, hn⟩ : ∃ n, (⟨w, {}, h⟩ : State Body Tally).room = n + 4 :=
    ⟨w.depthBound - 4, (Nat.sub_add_cancel (Nat.le_trans (by decide) hroom)).symm⟩
  have hslot : w.slotOf (w.classOf worker.object) methodName = some 0 := by
    rw [hready.cls]
    exact hm.slot
  have hcell : w.methodAt (w.classOf worker.object) 0 = some ⟨2⟩ := by
    rw [hready.cls]
    exact hm.cell
  have hfree : ∀ a ∈ w.lineage ⟨2⟩, w.ownEntry (w.coreOf ⟨0⟩).registry a = none := by
    rw [hm.core]
    exact hm.free
  have hlimit : 0 + 4 ≤ w.maxDepth ⟨0⟩ := by
    rw [hm.limit]
    decide
  have hcall := invokeVirtual_counts (s := ⟨w, {}, h⟩) (n := n) [] hw hm.unstacked hf hbound hfree
    hm.handled hm.armed hslot hcell hm.trampoline hm.original (fun hopen => by cases hopen.2)
    hlimit
  rw [← hn, hm.core] at hcall
  exact run_perform.trans (congrArg (answered host _) hcall)

end Rehearsed

/-- A call that returns is what the machine makes of it, on the worker's own thread. -/
theorem Scene.call_eq {s : Scene} {i : Nat} {worker : Worker} {x : Value} {w : World Body}
    {th : Thread} {t : Tally} (hworker : s.workers[i]? = some worker)
    (hrun : Program.start (α := Value) host
      (.perform (.callVirtual s.vm worker.object methodName []))
      ⟨s.world, worker.thread, s.tally⟩ = (.value x, ⟨w, th, t⟩)) :
    s.call i = .ok { s with
      world := w
      tally := t
      workers := s.workers.setIfInBounds i { worker with thread := th } } := by
  simp only [Scene.call, hworker, hrun]

/-- So many workers have started, and so many calls were made and counted. -/
structure Scene.OnCourse (mode : SwapMode) (n k : Nat) (s : Scene) : Prop where
  machine : s.vm = ⟨0⟩
  activity : s.activity = ⟨3⟩
  reached : ∃ log, Reached host (fun op => op.IsOrdinary = true) ⟨s.world, {}, (s.tally, log)⟩
  world : (played mode k).OnlyObjects s.world
  started : s.workers.size = n
  ready : ∀ worker ∈ s.workers, worker.Ready s.world
  tally : s.tally = ⟨k, k⟩
  errors : s.errors = 0

namespace Scene.OnCourse

variable {mode : SwapMode} {n k : Nat} {s : Scene}

/-- A demonstration begins with no worker and no call. -/
theorem make (mode : SwapMode) : OnCourse mode 0 0
    { world := stage mode, vm := ⟨0⟩, activity := ⟨3⟩ } where
  machine := rfl
  activity := rfl
  reached := reached_stage mode
  world := by
    rw [played_zero]
    exact .refl _
  started := rfl
  ready _ hworker := absurd hworker (Array.not_mem_empty _)
  tally := rfl
  errors := rfl

theorem faithful (h : s.OnCourse mode n k) : s.world.Sound ∧ s.world.Faithful := by
  obtain ⟨log, hs⟩ := h.reached
  obtain ⟨hw, hf⟩ := Reached.faithful uses_body hs (State.at_present _)
  exact ⟨hw, hf (Rehearsed.of_played h.world).unstacked⟩

/-- The next worker gets an activity with a handler, and the others keep theirs. -/
theorem start (h : s.OnCourse mode n k) :
    ∃ s', s.start = .ok s' ∧ s'.OnCourse mode (n + 1) k := by
  obtain ⟨hw, -⟩ := h.faithful
  obtain ⟨o, w, hmake, hstep, hkept, hready⟩ := (Rehearsed.of_played h.world).starts hw
  refine ⟨{ s with world := w, workers := s.workers.push { object := o } }, ?_, ?_⟩
  · rw [Scene.start, h.machine, h.activity, hmake]
  · exact
      { machine := h.machine
        activity := h.activity
        reached := by
          obtain ⟨log, hs⟩ := h.reached
          let op : Op Body := .allocate ⟨0⟩ ⟨3⟩
          have hop : ∀ exec, op.run host exec ⟨s.world, {}, s.tally⟩ =
              (.value o, ⟨w, {}, s.tally⟩) := fun exec =>
            congrArg (fun x => (x.1, (⟨x.2, {}, s.tally⟩ : State Body Tally))) hmake
          refine hs.play (p := Program.perform op) (.perform rfl) (r := .value o) ?_
          rw [Program.start, run_perform, hop]
          rfl
        world := h.world.trans hstep
        started := by rw [Array.size_push, h.started]
        ready := by
          intro worker hworker
          rcases Array.mem_push.mp hworker with hold | rfl
          · exact (h.ready worker hold).of_keeps hstep hkept
          · exact hready
        tally := h.tally
        errors := h.errors }

/-- A worker's call is one entry and one run. -/
theorem call (h : s.OnCourse mode n k) {i : Nat} (hi : i < n) :
    ∃ s', s.call i = .ok s' ∧ s'.OnCourse mode n (k + 1) := by
  obtain ⟨hw, hf⟩ := h.faithful
  obtain ⟨worker, hworker⟩ : ∃ worker, s.workers[i]? = some worker :=
    ⟨_, Array.getElem?_eq_getElem (h.started ▸ hi)⟩
  have hready := h.ready worker (Array.mem_of_getElem? hworker)
  have hcall := (Rehearsed.of_played h.world).calls hw hf hready s.tally
  refine ⟨{ s with
    world := s.world.modifyEntry ⟨0⟩ 0 Entry.called
    tally := s.tally.called
    workers := s.workers.setIfInBounds i { worker with thread := {} } }, ?_, ?_⟩
  · refine Scene.call_eq hworker (x := .null) ?_
    rw [h.machine, hready.idle]
    exact hcall
  · exact
      { machine := h.machine
        activity := h.activity
        reached := by
          obtain ⟨log, hs⟩ := h.reached
          exact hs.play (.perform rfl) hcall
        world := by
          rw [← played_called]
          exact h.world.modifyEntry ⟨0⟩ 0 Entry.called
        started := by rw [Array.size_setIfInBounds, h.started]
        ready := by
          intro other hother
          rcases Array.mem_or_eq_of_mem_setIfInBounds hother with hold | rfl
          · exact (h.ready other hold).of_called
          · rw [← hready.idle]
            exact hready.of_called
        tally := by
          show s.tally.called = _
          rw [h.tally]
          rfl
        errors := h.errors }

end Scene.OnCourse

/-! ### Whole schedules -/

/-- The turn is a call. -/
def Turn.isCall : Turn → Bool
  | .start => false
  | .call _ => true

/-- A schedule of these workers and calls: the turns are those of the rounds in any other order,
but no worker makes a call before it has started. -/
structure Plays (o : Options) (schedule : List Turn) : Prop where
  perm : schedule.Perm (rounds o)
  started : ∀ earlier i later, schedule = earlier ++ .call i :: later → i < earlier.count .start

/-- All the calls of the rounds, which are what follows after all have started. -/
theorem mem_rounds {o : Options} {turn : Turn}
    (h : turn ∈ (List.replicate o.calls ((List.range o.threads).map .call)).flatten) :
    ∃ i < o.threads, turn = .call i := by
  obtain ⟨round, hround, hturn⟩ := List.mem_flatten.mp h
  rw [List.eq_of_mem_replicate hround] at hturn
  obtain ⟨i, hi, rfl⟩ := List.mem_map.mp hturn
  exact ⟨i, List.mem_range.mp hi, rfl⟩

theorem count_start_rounds (o : Options) : (rounds o).count .start = o.threads := by
  rw [rounds, List.count_append, List.count_replicate_self, Nat.add_eq_left, List.count_eq_zero]
  intro hmem
  obtain ⟨i, -, hi⟩ := mem_rounds hmem
  cases hi

theorem countP_isCall_rounds (o : Options) :
    (rounds o).countP Turn.isCall = o.threads * o.calls := by
  have hround : ((List.range o.threads).map Turn.call).countP Turn.isCall = o.threads := by
    rw [List.countP_eq_length.mpr fun turn hturn => ?_, List.length_map, List.length_range]
    obtain ⟨i, -, rfl⟩ := List.mem_map.mp hturn
    rfl
  have hstarts : (List.replicate o.threads Turn.start).countP Turn.isCall = 0 :=
    List.countP_eq_zero.mpr fun turn hturn => by
      rw [List.eq_of_mem_replicate hturn]
      exact Bool.false_ne_true
  rw [rounds, List.countP_append, List.countP_flatten, List.map_replicate, hround, hstarts,
    List.sum_replicate_nat, Nat.zero_add, Nat.mul_comm]

/-- Round after round is one of the orders. -/
theorem plays_rounds (o : Options) : Plays o (rounds o) where
  perm := .refl _
  started := by
    intro earlier i later heq
    have hlt : .call i ∈ rounds o → i < o.threads := fun hmem => by
      rcases List.mem_append.mp hmem with hstart | hcall
      · cases List.eq_of_mem_replicate hstart
      · obtain ⟨j, hj, hij⟩ := mem_rounds hcall
        cases hij
        exact hj
    rw [heq] at hlt
    rcases List.append_eq_append_iff.mp heq with ⟨calls, rfl, -⟩ | ⟨starts, hstarts, hcalls⟩
    · rw [List.count_append, List.count_replicate_self]
      exact Nat.lt_add_right _ (hlt (by simp))
    · cases starts with
      | nil =>
        rw [List.append_nil] at hstarts
        rw [← hstarts, List.count_replicate_self]
        exact hlt (by simp)
      | cons first rest =>
        -- The call would be among the starts.
        have hmem : first ∈ List.replicate o.threads Turn.start := by
          rw [hstarts]
          simp
        cases (List.cons.inj hcalls).1.trans (List.eq_of_mem_replicate hmem)

/-- As long as workers call after they have started every turn can be taken, and counts. -/
theorem Scene.OnCourse.plays {mode : SwapMode} {schedule : List Turn} {n k : Nat} {s : Scene}
    (h : s.OnCourse mode n k)
    (hstarted : ∀ earlier i later, schedule = earlier ++ .call i :: later →
      i < n + earlier.count .start) :
    ∃ s', schedule.foldlM Scene.turn s = .ok s' ∧
      s'.OnCourse mode (n + schedule.count .start) (k + schedule.countP Turn.isCall) := by
  induction schedule generalizing n k s with
  | nil => exact ⟨s, rfl, h⟩
  | cons turn rest ih =>
    rw [List.foldlM_cons]
    cases turn with
    | start =>
      obtain ⟨s', hturn, hs'⟩ := h.start
      obtain ⟨s'', hrest, hs''⟩ := ih hs' fun earlier i later heq => by
        have hlt := hstarted (.start :: earlier) i later (congrArg (.start :: ·) heq)
        rw [List.count_cons_self] at hlt
        omega
      refine ⟨s'', ?_, ?_⟩
      · show Except.bind s.start _ = _
        rw [hturn]
        exact hrest
      · rw [List.count_cons_self, List.countP_cons_of_neg Bool.false_ne_true]
        rwa [Nat.add_right_comm] at hs''
    | call i =>
      obtain ⟨s', hturn, hs'⟩ := h.call (hstarted [] i rest rfl)
      obtain ⟨s'', hrest, hs''⟩ := ih hs' fun earlier j later heq => by
        have hlt := hstarted (.call i :: earlier) j later (congrArg (.call i :: ·) heq)
        rwa [List.count_cons_of_ne Turn.noConfusion] at hlt
      refine ⟨s'', ?_, ?_⟩
      · show Except.bind (s.call i) _ = _
        rw [hturn]
        exact hrest
      · rw [List.count_cons_of_ne Turn.noConfusion, List.countP_cons_of_pos rfl]
        rwa [Nat.add_right_comm] at hs''

/-! ### The report -/

/-- The report of a demonstration in which every call was intercepted once and went through. -/
def Options.exactReport (o : Options) : Report :=
  { mode := o.mode
    threads := o.threads
    callsPerThread := o.calls
    expected := o.threads * o.calls
    handlerEntries := o.threads * o.calls
    methodRuns := o.threads * o.calls
    errors := 0
    armed := true
    stats := [{
      row := ⟨activityName, [methodName], handlerName⟩
      resolved := true
      trampolines := 1
      openWindows := 0
      calls := o.threads * o.calls }] }

namespace Scene.OnCourse

variable {mode : SwapMode} {n k : Nat} {s : Scene}

theorem isArmed (h : s.OnCourse mode n k) : s.isArmed = true := by
  have hm := Rehearsed.of_played h.world
  simp only [Scene.isArmed, h.machine, h.activity, hm.core]
  rw [h.world.rest]
  unfold played stage
  cases mode <;> rfl

/-- The one row was resolved, has one trampoline and no open window, and has counted the calls. -/
theorem stats (h : s.OnCourse mode n k) : s.world.stats (s.world.coreOf s.vm) =
    [⟨⟨activityName, [methodName], handlerName⟩, true, 1, 0, k⟩] := by
  have hm := Rehearsed.of_played h.world
  rw [h.machine, hm.core, h.world.rest]
  unfold played stage
  cases mode <;> rfl

/-- What is reported of a scene is what has been counted. -/
theorem report {o : Options} (h : s.OnCourse o.mode o.threads (o.threads * o.calls)) :
    s.report o = o.exactReport := by
  rw [Scene.report, h.isArmed, h.stats, h.tally, h.errors]
  rfl

end Scene.OnCourse

theorem Options.isExact_exactReport (o : Options) : o.exactReport.isExact = true := by
  simp [Report.isExact, exactReport]

/-- With no worker there is nothing to play. -/
theorem runSchedule_noThreads {o : Options} (h : o.threads = 0) (schedule : List Turn) :
    runSchedule o schedule = .error .noThreads := by
  rw [runSchedule, runBy, if_pos h]

/-- With more workers than can be listed the play does not begin. -/
theorem runSchedule_tooManyThreads {o : Options} (h : maxThreads < o.threads)
    (schedule : List Turn) : runSchedule o schedule = .error .tooManyThreads := by
  have hsome : o.threads ≠ 0 := Nat.ne_of_gt (Nat.zero_lt_of_lt h)
  rw [runSchedule, runBy, if_neg hsome, make_eq]
  exact if_pos h

/-- Any other demonstration ends with its exact report, in whatever order its turns are taken. -/
theorem Plays.runSchedule {o : Options} {schedule : List Turn} (h : Plays o schedule)
    (hsome : o.threads ≠ 0) (hroom : o.threads ≤ maxThreads) :
    runSchedule o schedule = .ok o.exactReport := by
  obtain ⟨s, hplay, hs⟩ := (Scene.OnCourse.make o.mode).plays fun earlier i later heq => by
    rw [Nat.zero_add]
    exact h.started earlier i later heq
  rw [h.perm.count_eq, h.perm.countP_eq, count_start_rounds, countP_isCall_rounds, Nat.zero_add,
    Nat.zero_add] at hs
  rw [Demo.runSchedule, runBy, if_neg hsome, make_eq]
  show ite _ _ _ = _
  rw [if_neg (Nat.not_lt.mpr hroom), hplay]
  exact congrArg Except.ok hs.report

/-- **The demonstration is exact.**  Whatever the mode, and in whatever order the workers' whole
calls follow each other: every call has entered the handler once and reached the method once, none
has failed, the class is armed, and its row was resolved, has one trampoline, no open window, and
has counted every call.  There is no report without a worker, or with more than can be listed.
Counters and the number of calls expected are unbounded here; the program keeps them in 64 bits, so
the two agree as long as `threads * calls` is below `2 ^ 64`. -/
theorem runSchedule_exact (o : Options) :
    (o.threads = 0 → ∀ schedule, runSchedule o schedule = .error .noThreads) ∧
    (maxThreads < o.threads → ∀ schedule, runSchedule o schedule = .error .tooManyThreads) ∧
    (1 ≤ o.threads → o.threads ≤ maxThreads →
      (∀ schedule, Plays o schedule → runSchedule o schedule = .ok o.exactReport) ∧
      run o = .ok o.exactReport ∧ o.exactReport.isExact = true) := by
  refine ⟨runSchedule_noThreads, runSchedule_tooManyThreads, fun hsome hroom => ?_⟩
  have hne : o.threads ≠ 0 := Nat.ne_of_gt hsome
  refine ⟨fun schedule hplays => hplays.runSchedule hne hroom, ?_, o.isExact_exactReport⟩
  rw [run_eq_runSchedule]
  exact (plays_rounds o).runSchedule hne hroom

/-- Two workers, of which one has made all its calls before the other starts. -/
def oneByOne : List Turn := [.start, .call 0, .call 0, .start, .call 1, .call 1]

theorem plays_oneByOne : Plays { threads := 2, calls := 2 } oneByOne where
  perm := by decide
  started := by
    intro earlier i later heq
    simp only [oneByOne, List.cons_eq_append_iff, List.nil_eq_append_iff] at heq
    rcases heq with ⟨rfl, h⟩ | ⟨_, rfl, ⟨rfl, h⟩ | ⟨_, rfl, ⟨rfl, h⟩ | ⟨_, rfl, ⟨rfl, h⟩ |
      ⟨_, rfl, ⟨rfl, h⟩ | ⟨_, rfl, ⟨rfl, h⟩ | ⟨_, rfl, -, h⟩⟩⟩⟩⟩⟩
    all_goals cases h
    all_goals decide

/-- The exact report of an interleaving in per-call mode, and of one worker in class-wide mode. -/
theorem exact_oneByOne :
    runSchedule { threads := 2, calls := 2 } oneByOne =
      .ok (Options.exactReport { threads := 2, calls := 2 }) ∧
    run { mode := .classWide, threads := 1, calls := 3 } =
      .ok (Options.exactReport { mode := .classWide, threads := 1, calls := 3 }) ∧
    run { threads := 0 } = .error .noThreads := by
  obtain ⟨-, -, htwo⟩ := runSchedule_exact { threads := 2, calls := 2 }
  obtain ⟨-, -, hone⟩ := runSchedule_exact { mode := .classWide, threads := 1, calls := 3 }
  obtain ⟨hnone, -, -⟩ := runSchedule_exact { threads := 0 }
  exact ⟨(htwo (by decide) (by decide)).1 _ plays_oneByOne, (hone (by decide) (by decide)).2.1,
    hnone rfl _⟩

/-- **There is no report of as many workers as can be asked for**, even if none makes a call. -/
theorem run_countless :
    1 ≤ 18446744073709551615 ∧ 18446744073709551615 * 0 < 18446744073709551616 ∧
      run { mode := .perCall, threads := 18446744073709551615, calls := 0 } =
        .error .tooManyThreads := by
  refine ⟨by decide, by decide, ?_⟩
  rw [run_eq_runSchedule]
  exact runSchedule_tooManyThreads (by decide) _

end Demo

end Interception
