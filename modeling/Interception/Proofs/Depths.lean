/-
Which calls are refused.

Running a cell recurses on the room that is left, and that is no part of what a call does:
`call` takes all the room there is, and obeys the equation a recursion without any such bound
would have.  A cell is refused exactly where its machine's limit is reached, and else it runs
in a frame of its own, where calls obey the same equation.

What is refused in a run can be read off its record.  `Paced` says of every moment of a run how
deep the thread is: no deeper than where the run started, or than the limit of a machine that
admitted a frame on the way; at a refusal no less deep than the machine's limit.  So on one
machine all refusals are at the same depth.
-/
import Interception.Proofs.Levels

namespace Interception

variable {β H α : Type}

/-! ### Calling with all the room there is -/

/-- Run a cell, with all the room there is. -/
def call (host : Host β H) : Executor β H := fun v m this args s =>
  execute host s.room v m this args s

/-- The acts do the same where there is room for this many frames. -/
def AgreesAt (n : Nat) (act act' : Act β H α) : Prop := ∀ s, s.room = n → act s = act' s

namespace AgreesAt

variable {host : Host β H} {exec exec' : Executor β H} {n : Nat}

theorem room_begin (s : State β H) (host : Host β H) (v : VmRef) (core : Core)
    (this : ObjectRef) (m : CellRef) : (s.begin host v core this m).room = s.room := by
  have hlevel := Trail.level_begin ⟨s.world, s.thread, []⟩ v core this m
  exact Trail.room_of_level hlevel

section

variable (h : ∀ v m this args, AgreesAt n (exec v m this args) (exec' v m this args))
include h

theorem invokeSlot (v : VmRef) (this : ObjectRef) (slot : Nat) (args : List Value) :
    AgreesAt n (invokeSlot exec v this slot args) (invokeSlot exec' v this slot args) := by
  intro s hs
  unfold Interception.invokeSlot
  simp only
  split
  · exact h v _ this args s hs
  · rfl

theorem invokeVirtual (v : VmRef) (this : ObjectRef) (name : String) (args : List Value) :
    AgreesAt n (invokeVirtual exec v this name args) (invokeVirtual exec' v this name args) := by
  intro s hs
  unfold Interception.invokeVirtual
  simp only
  split
  · exact invokeSlot h v this _ args s hs
  · rfl

theorem invokeDirect (v : VmRef) (this : ObjectRef) (name : String) (args : List Value) :
    AgreesAt n (invokeDirect exec v this name args) (invokeDirect exec' v this name args) := by
  intro s hs
  unfold Interception.invokeDirect
  simp only
  split
  · exact h v _ this args s hs
  · rfl

theorem invokeMethod (v : VmRef) (caller : Option ClassRef) (m : CellRef) (this : ObjectRef)
    (args : List Value) :
    AgreesAt n (invokeMethod exec v caller m this args)
      (invokeMethod exec' v caller m this args) := by
  intro s hs
  unfold Interception.invokeMethod
  simp only
  split
  · rfl
  · split
    · rfl
    · exact h v m this args s hs

theorem invokeHandler (v : VmRef) (core : Core) (handler : ObjectRef) (m : CellRef)
    (this : ObjectRef) (args : List Value) :
    AgreesAt n (invokeHandler host exec v core handler m this args)
      (invokeHandler host exec' v core handler m this args) := by
  intro s hs
  rw [invokeHandler_eq, invokeHandler_eq, invokeVirtual h v handler handlerMethod _ _
    ((room_begin s host v core this m).trans hs)]

theorem invokeTrampoline (v : VmRef) (core : Core) (m : CellRef) (this : ObjectRef)
    (args : List Value) :
    AgreesAt n (invokeTrampoline host exec v core m this args)
      (invokeTrampoline host exec' v core m this args) := by
  intro s hs
  unfold Interception.invokeTrampoline
  split
  · exact h v m this args s hs
  · rename_i replaced _
    split
    · exact h v replaced this args s hs
    · split
      · exact h v replaced this args s hs
      · rename_i handler _
        exact invokeHandler h v core handler m this args s hs

theorem op (o : Op β) : AgreesAt n (o.run host exec) (o.run host exec') := by
  cases o with
  | callVirtual v this name args => exact invokeVirtual h v this name args
  | callSlot v this slot args => exact invokeSlot h v this slot args
  | callDirect v this name args => exact invokeDirect h v this name args
  | callMethod v caller m this args => exact invokeMethod h v caller m this args
  | execute v m this args => exact h v m this args
  | callTrampoline v core m this args => exact invokeTrampoline h v core m this args
  | _ => exact fun s _ => rfl

/-- Programs do the same where the operations of one leave the room as it was. -/
theorem run (hroom : ∀ (o : Op β) s, s.room = n → (o.run host exec s).2.room = n)
    (p : Program β H α) : AgreesAt n (p.run host exec) (p.run host exec') := by
  intro s hs
  induction p generalizing s with
  | pure a => rfl
  | fail e => rfl
  | panic text => rfl
  | host update next ih =>
    exact ih s.world s.host { s with host := update s.world s.host } hs
  | call o next ih =>
    have hnext := hroom o s hs
    simp only [Program.run]
    rw [← op h o s hs]
    generalize o.run host exec s = x at hnext ⊢
    obtain ⟨r, t⟩ := x
    cases r with
    | value a => exact ih (.ok a) (t.notify host (.performed o)) hnext
    | error e => exact ih (.error e) (t.notify host (.performed o)) hnext
    | panic text => rfl
    | endless => rfl

theorem runCell (hroom : ∀ (o : Op β) s, s.room = n → (o.run host exec s).2.room = n) (v : VmRef)
    (m : CellRef) (this : ObjectRef) (args : List Value) :
    AgreesAt n (runCell host exec v m this args) (runCell host exec' v m this args) := by
  intro s hs
  unfold Interception.runCell
  simp only
  split
  · exact run h hroom _ s hs
  · rfl
  · exact invokeTrampoline h v _ m this args s hs

end

end AgreesAt

theorem Program.uses_anything (p : Program β H α) : p.Uses fun _ => True := by
  induction p with
  | pure a => trivial
  | fail e => trivial
  | panic text => trivial
  | host update next ih => exact fun w h => ih w h
  | call o next ih => exact ⟨trivial, ih⟩

section Equations

variable (host : Host β H)

theorem agrees_call (n : Nat) (v : VmRef) (m : CellRef) (this : ObjectRef) (args : List Value) :
    AgreesAt n (execute host n v m this args) (call host v m this args) := by
  rintro s rfl
  rfl

/-- An operation leaves the room as it was. -/
theorem room_op {n : Nat} (o : Op β) (s : State β H) (hs : s.room = n) :
    (o.run host (execute host n) s).2.room = n := by
  -- Keeping a record changes nothing, and with a record the level is known to be kept.
  have hlogged := (Logs.op host (fun v m this args => execute_logged host n v m this args) o
    ⟨s.world, s.thread, (s.host, [])⟩).2
  have hlevel := (conducts_level host).op
    ((conducts_level host).runs_execute (fun _ _ _ _ => Program.uses_anything _) n) (o := o) trivial
    (s := ⟨s.world, s.thread, (s.host, [])⟩) (Nat.le_of_eq hs)
  have hplain : (o.run host (execute host n) s).2 = _ := hlogged.symm
  rw [hplain]
  exact (Trail.room_of_level hlevel).trans hs

variable {v : VmRef} {m : CellRef} {this : ObjectRef} {args : List Value} {s : State β H}

/-- A call at the limit of its machine is refused, and nothing else happens. -/
theorem call_refused (h : s.world.maxDepth v < s.thread.depth + 1) :
    call host v m this args s =
      (.error (.stackOverflow (s.thread.depth + 1)), s.notify host (.refused v m this)) :=
  execute_refused host h

/-- Any other call runs the cell in a frame of its own. -/
theorem call_admitted (h : s.thread.depth < s.world.maxDepth v) :
    call host v m this args s =
      inFrame host v m this args (runCell host (call host) v m this args) s := by
  obtain ⟨n, hn⟩ : ∃ n, s.room = n + 1 :=
    Nat.exists_eq_succ_of_ne_zero (Nat.sub_ne_zero_of_lt
      (Nat.lt_of_lt_of_le h (s.world.maxDepth_le_depthBound v)))
  have hroom : (s.enter host v m this args).room = n := by
    have hs : s.world.depthBound - s.thread.depth = n + 1 := hn
    show s.world.depthBound - (s.thread.depth + 1) = n
    omega
  rw [call, hn, execute_admitted host h]
  exact inFrame_congr host (AgreesAt.runCell (agrees_call host n) (room_op host) v m this args _
    hroom)

/-- A program that is started makes such calls. -/
theorem start_eq (p : Program β H α) (s : State β H) : p.start host s = p.run host (call host) s :=
  AgreesAt.run (agrees_call host s.room) (room_op host) p s rfl

end Equations

/-! ### The record -/

/-- The machine that admitted a frame. -/
def Event.admittedBy? : Event β → Option VmRef
  | .entered v _ _ _ => some v
  | _ => none

/-- The machine that refused a frame. -/
def Event.refusedBy? : Event β → Option VmRef
  | .refused v _ _ => some v
  | _ => none

/-- How deep the thread is at a moment of a run that was recorded as `new`. -/
structure Moment.Paced (x : Moment β) (t : Trail β) (new : List (Moment β)) : Prop where
  limits : x.world.limits = t.world.limits
  /-- No deeper than in the beginning, or than some machine allows that was used. -/
  covered : x.thread.depth ≤ t.thread.depth ∨
    ∃ y ∈ new, ∃ v, y.event.admittedBy? = some v ∧ x.thread.depth ≤ t.world.maxDepth v
  admitted : ∀ v, x.event.admittedBy? = some v → x.thread.depth ≤ t.world.maxDepth v
  refused : ∀ v, x.event.refusedBy? = some v → t.world.maxDepth v ≤ x.thread.depth

/-- A run comes back to its level, and every moment of it is paced. -/
structure Trail.Paced (t u : Trail β) : Prop where
  level : u.level = t.level
  log : ∃ new, u.log = new ++ t.log ∧ ∀ x ∈ new, x.Paced t new

namespace Trail.Paced

variable {t u x : Trail β}

theorem refl (t : Trail β) : t.Paced t := ⟨rfl, [], rfl, fun _ h => by cases h⟩

/-- Moments of one half of a run are paced in the whole. -/
theorem moment {y : Moment β} {new all : List (Moment β)} (hy : y.Paced u new)
    (hlevel : u.level = t.level) (hall : ∀ z ∈ new, z ∈ all) : y.Paced t all where
  limits := hy.limits.trans (Trail.limits_of_level hlevel)
  covered := by
    rcases hy.covered with hle | ⟨z, hz, v, hv, hle⟩
    · exact Or.inl (hle.trans_eq (Trail.depth_of_level hlevel))
    · exact Or.inr ⟨z, hall z hz, v, hv, hle.trans_eq (Trail.maxDepth_of_level hlevel v)⟩
  admitted v hv := (hy.admitted v hv).trans_eq (Trail.maxDepth_of_level hlevel v)
  refused v hv := (Trail.maxDepth_of_level hlevel v).symm.trans_le (hy.refused v hv)

theorem trans (h : t.Paced u) (h' : u.Paced x) : t.Paced x := by
  obtain ⟨new, hlog, hnew⟩ := h.log
  obtain ⟨new', hlog', hnew'⟩ := h'.log
  refine ⟨h'.level.trans h.level, new' ++ new, ?_, fun y hy => ?_⟩
  · rw [hlog', hlog, List.append_assoc]
  · rcases List.mem_append.mp hy with hy | hy
    · exact moment (hnew' y hy) h.level fun z hz => List.mem_append_left _ hz
    · exact moment (hnew y hy) rfl fun z hz => List.mem_append_right _ hz

/-- A moment that is neither an admission nor a refusal, as deep as the run began. -/
theorem quiet {y : Moment β} {new : List (Moment β)} (hlimits : y.world.limits = t.world.limits)
    (hdepth : y.thread.depth = t.thread.depth) (hadmits : y.event.admittedBy? = none)
    (hrefuses : y.event.refusedBy? = none) : y.Paced t new where
  limits := hlimits
  covered := Or.inl (Nat.le_of_eq hdepth)
  admitted v hv := by
    rw [hadmits] at hv
    cases hv
  refused v hv := by
    rw [hrefuses] at hv
    cases hv

theorem note {e : Event β} (hadmits : e.admittedBy? = none) (hrefuses : e.refusedBy? = none) :
    t.Paced (t.note e) := by
  refine ⟨rfl, [⟨e, t.world, t.thread⟩], rfl, fun y hy => ?_⟩
  obtain rfl := List.mem_singleton.mp hy
  exact quiet rfl rfl hadmits hrefuses

theorem refused {v : VmRef} {m : CellRef} {this : ObjectRef}
    (h : t.world.maxDepth v ≤ t.thread.depth) : t.Paced (t.note (.refused v m this)) := by
  refine ⟨rfl, [⟨.refused v m this, t.world, t.thread⟩], rfl, fun y hy => ?_⟩
  obtain rfl := List.mem_singleton.mp hy
  refine ⟨rfl, Or.inl (Nat.le_refl _), fun u hu => ?_, fun u hu => ?_⟩
  · cases hu
  · cases hu
    exact h

/-- The frame that was admitted covers what is one deeper. -/
theorem frame {v : VmRef} {m : CellRef} {this : ObjectRef} {args : List Value}
    (hd : t.thread.depth < t.world.maxDepth v) (h : (t.enter v m this args).Paced u) :
    t.Paced (u.leave v m this) := by
  obtain ⟨new, hlog, hnew⟩ := h.log
  have hlevel := Trail.level_leave h.level
  have hlimits : u.world.limits = (t.enter v m this args).world.limits :=
    Trail.limits_of_level h.level
  let entry : Moment β :=
    ⟨.entered v m this args, t.world, { t.thread with depth := t.thread.depth + 1 }⟩
  let exit : Moment β := ⟨.left v m this, u.world, { u.thread with depth := u.thread.depth - 1 }⟩
  have hadmits : entry.event.admittedBy? = some v := rfl
  have hentry : entry ∈ exit :: (new ++ [entry]) :=
    List.mem_cons_of_mem _ (List.mem_append_right _ List.mem_cons_self)
  refine ⟨hlevel, exit :: (new ++ [entry]), ?_, fun y hy => ?_⟩
  · show exit :: u.log = _
    rw [hlog, List.cons_append, List.append_assoc]
    rfl
  · rcases List.mem_cons.mp hy with rfl | hy
    · exact quiet hlimits (Trail.depth_of_level hlevel) rfl rfl
    · rcases List.mem_append.mp hy with hy | hy
      · have hin := hnew y hy
        refine ⟨hin.limits, ?_, hin.admitted, hin.refused⟩
        rcases hin.covered with hle | ⟨z, hz, w, hw, hle⟩
        · exact Or.inr ⟨entry, hentry, v, hadmits, Nat.le_trans hle hd⟩
        · exact Or.inr ⟨z, List.mem_cons_of_mem _ (List.mem_append_left _ hz), w, hw, hle⟩
      · obtain rfl := List.mem_singleton.mp hy
        refine ⟨rfl, Or.inr ⟨entry, hentry, v, hadmits, hd⟩, fun w hw => ?_, fun w hw => ?_⟩
        · cases hw
          exact hd
        · cases hw

theorem window {v : VmRef} {core : Core} {this : ObjectRef} {m : CellRef}
    (h : (t.begin v core this m).Paced u) : t.Paced (u.finish (t.guardFor v core this m)) := by
  have hbegin := Trail.level_begin t v core this m
  have hfinish := Trail.level_finish u (t.guardFor v core this m)
  have hopening : t.Paced (t.begin v core this m) := by
    refine ⟨hbegin, [_], rfl, fun y hy => ?_⟩
    obtain rfl := List.mem_singleton.mp hy
    exact quiet (Trail.limits_of_level hbegin) (Trail.depth_of_level hbegin) rfl rfl
  have hclosing : u.Paced (u.finish (t.guardFor v core this m)) := by
    refine ⟨hfinish, [_], rfl, fun y hy => ?_⟩
    obtain rfl := List.mem_singleton.mp hy
    exact quiet (Trail.limits_of_level hfinish) (Trail.depth_of_level hfinish) rfl rfl
  exact (hopening.trans h).trans hclosing

end Trail.Paced

/-- Every run is paced, whatever is asked for. -/
theorem conducts_paced (host : Host β H) :
    Conducts host (fun _ => True) fun t _ u => t.Paced u where
  level h := h.level
  refl := .refl _
  trans h h' := h.trans h'
  performed := .note rfl rfl
  refused h := .refused h
  frame hd h := h.frame hd
  window h := h.window
  still _ hop exec s := by
    obtain ⟨hlevel, hhost⟩ := Op.run_still host exec hop s
    exact ⟨hlevel, [], congrArg Prod.snd hhost, fun _ h => by cases h⟩

/-- Nothing in a run is deeper than the largest of the limits, if the run does not begin so. -/
theorem Moment.Paced.depth_le {x : Moment β} {t : Trail β} {new : List (Moment β)}
    (h : x.Paced t new) (ht : t.thread.depth ≤ t.world.depthBound) :
    x.thread.depth ≤ x.world.depthBound := by
  rw [World.depthBound_eq, h.limits, ← World.depthBound_eq]
  rcases h.covered with hle | ⟨y, -, v, -, hle⟩
  · exact Nat.le_trans hle ht
  · exact Nat.le_trans hle (t.world.maxDepth_le_depthBound v)

/-- Where one machine is used, everything it refuses is at its limit. -/
theorem Moment.Paced.depth_eq {x : Moment β} {t : Trail β} {new : List (Moment β)} {v : VmRef}
    (h : x.Paced t new) (ht : t.thread.depth = 0)
    (hone : ∀ y ∈ new, ∀ u, y.event.admittedBy? = some u → u = v)
    (hx : x.event.refusedBy? = some v) :
    x.thread.depth = t.world.maxDepth v := by
  refine Nat.le_antisymm ?_ (h.refused v hx)
  rcases h.covered with hle | ⟨y, hy, u, hu, hle⟩
  · rw [ht, Nat.le_zero] at hle
    rw [hle]
    exact Nat.zero_le _
  · rw [hone y hy u hu] at hle
    exact hle

end Interception
