/-
How deep a run is, and that every call comes back to where it was.

The depth of a thread is counted in frames.  Whatever a call does, and however it ends, the
thread is at the same depth afterwards and the machines have the limits they had, since every
frame that was entered is left and nothing else counts.  The two together are the *level* of a
run, and the room left for further calls depends on nothing else.

`Conducts` is the induction over a run for properties that hold whatever is asked for, whether
it is ordinary or reaches into cells and windows by hand.  It also follows how a call ends, as
far as it matters here: whether it ends at all.
-/
import Mathlib.Order.MinMax
import Interception.Proofs.Homes
import Interception.Proofs.Trail

namespace Interception

variable {β H α : Type}

/-! ### Limits -/

theorem le_foldl_max_iff {l : List Nat} {a n : Nat} :
    n ≤ l.foldl max a ↔ n ≤ a ∨ ∃ x ∈ l, n ≤ x := by
  induction l generalizing a with
  | nil => simp
  | cons x rest ih => simp [ih, or_assoc]

namespace World

variable {w w' : World β}

/-- The limits of the machines, in the order in which they were set up. -/
def limits (w : World β) : List Nat := w.vms.items.toList.map fun k => k.options.maxDepth

theorem maxDepth_eq (w : World β) (v : VmRef) : w.maxDepth v = w.limits.getD v.index 0 := by
  rw [maxDepth, Store.get, limits, List.getD_eq_getElem?_getD, List.getElem?_map,
    Array.getElem?_toList, Array.getD_eq_getD_getElem?]
  cases w.vms.items[v.index]? with
  | none => rfl
  | some k => rfl

theorem depthBound_eq (w : World β) : w.depthBound = w.limits.foldl max 0 := by
  rw [depthBound, limits, List.foldl_map, Array.foldl_toList]

/-- No machine's limit is above the bound of all. -/
theorem maxDepth_le_depthBound (w : World β) (v : VmRef) : w.maxDepth v ≤ w.depthBound := by
  rw [depthBound_eq, le_foldl_max_iff, maxDepth_eq, List.getD_eq_getElem?_getD]
  cases hv : w.limits[v.index]? with
  | none => exact Or.inl (Nat.le_refl 0)
  | some n => exact Or.inr ⟨n, List.mem_of_getElem? hv, Nat.le_refl n⟩

theorem limits_of_live (hlive : ∀ v, w'.vms.Live v ↔ w.vms.Live v)
    (hoptions : ∀ v, w.vms.Live v → (w'.vms.get v).options = (w.vms.get v).options) :
    w'.limits = w.limits := by
  have hsize : w'.vms.items.size = w.vms.items.size := by
    rcases Nat.lt_trichotomy w'.vms.items.size w.vms.items.size with hlt | heq | hlt
    · exact absurd ((hlive ⟨w'.vms.items.size⟩).mpr hlt) (Nat.lt_irrefl _)
    · exact heq
    · exact absurd ((hlive ⟨w.vms.items.size⟩).mp hlt) (Nat.lt_irrefl _)
  refine List.ext_getElem (by simp only [limits, List.length_map, Array.length_toList, hsize]) ?_
  intro n hn hn'
  have hlt : n < w.vms.items.size := by
    simpa only [limits, List.length_map, Array.length_toList] using hn'
  have hlimit : w'.maxDepth ⟨n⟩ = w.maxDepth ⟨n⟩ :=
    congrArg VmOptions.maxDepth (hoptions ⟨n⟩ hlt)
  rw [maxDepth_eq, maxDepth_eq, List.getD_eq_getElem?_getD, List.getD_eq_getElem?_getD,
    List.getElem?_eq_getElem hn, List.getElem?_eq_getElem hn'] at hlimit
  exact hlimit

theorem limits_of_grows (hg : w.Grows w') (hlive : ∀ v, w'.vms.Live v → w.vms.Live v) :
    w'.limits = w.limits :=
  limits_of_live (fun v => ⟨hlive v, fun hv => (hg.vms v hv).1⟩) fun v hv =>
    (hg.vms v hv).2.options

theorem limits_of_vms (h : w'.vms = w.vms) : w'.limits = w.limits := by
  rw [limits, h, limits]

theorem OnlyObjects.limits (h : w.OnlyObjects w') : w'.limits = w.limits :=
  limits_of_live h.liveVms fun v _ => (h.alike v).options

theorem limits_define {v : VmRef} {d : ClassDecl β} {c : ClassRef}
    (hd : w.define v d = .ok (c, w')) : w'.limits = w.limits := by
  have hg := (extends_define hd).grows
  obtain ⟨-, s, -, rfl⟩ := define_enrolls hd
  refine limits_of_grows hg fun u hu => ?_
  rw [live_enroll] at hu
  exact hu

theorem vms_patch (w : World β) (v : VmRef) (core : Core) (c : ClassRef) :
    (w.patch v core c).2.vms = w.vms := by
  have hp := patches_patch w v core c
  generalize (w.patch v core c).2 = x at hp
  cases hp with
  | nothing => rfl
  | installs _ _ _ _ => rfl

theorem onlyObjects_bind (w : World β) (v : VmRef) (core : Core) (o : ObjectRef) :
    w.OnlyObjects (w.bind v core o).2 :=
  onlyObjects_bindWith (fun x c => onlyObjects_allocate x v c) w core.registry o

end World

/-! ### Levels -/

/-- The depth of the thread and the limits of the machines. -/
def Trail.level (t : Trail β) : Nat × List Nat := (t.thread.depth, t.world.limits)

namespace Trail

variable {t u : Trail β}

/-- Frames that any machine could still admit. -/
def room (t : Trail β) : Nat := t.world.depthBound - t.thread.depth

theorem depth_of_level (h : u.level = t.level) : u.thread.depth = t.thread.depth :=
  congrArg Prod.fst h

theorem limits_of_level (h : u.level = t.level) : u.world.limits = t.world.limits :=
  congrArg Prod.snd h

theorem maxDepth_of_level (h : u.level = t.level) (v : VmRef) :
    u.world.maxDepth v = t.world.maxDepth v := by
  rw [World.maxDepth_eq, limits_of_level h, World.maxDepth_eq]

theorem room_of_level (h : u.level = t.level) : u.room = t.room := by
  rw [room, World.depthBound_eq, limits_of_level h, depth_of_level h, room, World.depthBound_eq]

theorem depth_openWindow (w : World β) (th : Thread) (v : VmRef) (core : Core) (o : ObjectRef)
    (m : CellRef) : (w.openWindow th v core o m).2.2.depth = th.depth := by
  have h := World.opens_openWindow w th v core o m
  generalize w.openWindow th v core o m = x at h ⊢
  cases h with
  | passthrough _ => rfl
  | perCall _ _ _ => rfl
  | classWide _ _ _ => rfl

theorem depth_closeWindow (w : World β) (th : Thread) (g : Guard β) :
    (w.closeWindow th g).2.depth = th.depth := by
  unfold World.closeWindow
  split
  · rfl
  · rfl
  · rfl

theorem level_begin (t : Trail β) (v : VmRef) (core : Core) (this : ObjectRef) (m : CellRef) :
    (t.begin v core this m).level = t.level :=
  Prod.ext (depth_openWindow ..)
    (World.limits_of_vms (World.shifts_openWindow t.world t.thread v core this m).vms)

theorem level_finish (t : Trail β) (g : Guard β) : (t.finish g).level = t.level :=
  Prod.ext (depth_closeWindow ..)
    (World.limits_of_vms (World.shifts_closeWindow t.world t.thread g).vms)

theorem level_leave {v : VmRef} {m : CellRef} {this : ObjectRef} {args : List Value}
    (h : u.level = (t.enter v m this args).level) : (u.leave v m this).level = t.level := by
  have hdepth : u.thread.depth = t.thread.depth + 1 := depth_of_level h
  have hlimits : u.world.limits = (t.enter v m this args).world.limits := limits_of_level h
  refine Prod.ext ?_ hlimits
  show u.thread.depth - 1 = t.thread.depth
  rw [hdepth, Nat.add_sub_cancel]

end Trail

/-! ### Operations that call nothing -/

/-- The operation runs a cell. -/
def Op.IsCall : Op β → Bool
  | .callVirtual .. | .callSlot .. | .callDirect .. | .callMethod .. | .execute .. => true
  | .callTrampoline .. => true
  | _ => false

/-- An operation that runs no cell leaves the level alone, and is not noted before it is done. -/
theorem Op.run_still (host : Host β H) (exec : Executor β (Logged β H)) {op : Op β}
    (hop : op.IsCall = false) (s : State β (Logged β H)) :
    (op.run host.logged exec s).2.trail.level = s.trail.level ∧
      (op.run host.logged exec s).2.host = s.host := by
  have key : ∀ {t : State β (Logged β H)}, t.thread.depth = s.thread.depth →
      t.world.limits = s.world.limits → t.trail.level = s.trail.level :=
    fun hdepth hlimits => Prod.ext hdepth hlimits
  cases op with
  | define v d =>
    simp only [Op.run]
    split
    · rename_i hd
      exact ⟨key rfl (World.limits_define hd), rfl⟩
    · exact ⟨rfl, rfl⟩
  | allocate v c => exact ⟨key rfl (World.onlyObjects_allocate s.world v c).limits, rfl⟩
  | setField o i x =>
    simp only [Op.run]
    split
    · rename_i hf
      exact ⟨key rfl (World.onlyObjects_setField hf).limits, rfl⟩
    · exact ⟨rfl, rfl⟩
  | patch v core c => exact ⟨key rfl (World.limits_of_vms (World.vms_patch s.world v core c)), rfl⟩
  | bind v core o => exact ⟨key rfl (World.onlyObjects_bind s.world v core o).limits, rfl⟩
  | openWindow v core o m =>
    exact ⟨key (Trail.depth_openWindow ..) (World.limits_of_vms
      (World.shifts_openWindow s.world s.thread v core o m).vms), rfl⟩
  | closeWindow g =>
    exact ⟨key (Trail.depth_closeWindow ..) (World.limits_of_vms
      (World.shifts_closeWindow s.world s.thread g).vms), rfl⟩
  | overwrite m d => exact ⟨rfl, rfl⟩
  | install c t => exact ⟨rfl, rfl⟩
  | newCell d => exact ⟨rfl, rfl⟩
  | newTable cells => exact ⟨rfl, rfl⟩
  | newRegistry rows => exact ⟨rfl, rfl⟩
  | _ => cases hop

/-! ### Induction over any run -/

/-- The run never ends. -/
def Ending.isEndless : Ending α → Bool
  | .endless => true
  | _ => false

theorem Ending.value_ne_endless (a : α) : Ending.value a ≠ .endless := fun h => by cases h

theorem Ending.error_ne_endless (e : VmError) : (Ending.error e : Ending α) ≠ .endless :=
  fun h => by cases h

theorem Ending.isEndless_eq_false_iff {r : Ending α} : r.isEndless = false ↔ r ≠ .endless := by
  cases r <;> simp [isEndless]

/-- A relation between the trail before a run, whether the run never ends, and the trail it
leaves, which every step of a run keeps. -/
structure Conducts (host : Host β H) (allowed : Op β → Prop)
    (R : Trail β → Bool → Trail β → Prop) : Prop where
  level : ∀ {t b u}, R t b u → u.level = t.level
  refl : ∀ {t}, R t false t
  trans : ∀ {t u x b}, R t false u → R u b x → R t b x
  performed : ∀ {t op}, R t false (t.note (.performed op))
  refused : ∀ {t v m this}, t.world.maxDepth v ≤ t.thread.depth →
    R t false (t.note (.refused v m this))
  frame : ∀ {t u b v m this args}, t.thread.depth < t.world.maxDepth v →
    R (t.enter v m this args) b u → R t b (u.leave v m this)
  window : ∀ {t u b v core m this}, R (t.begin v core this m) b u →
    R t b (u.finish (t.guardFor v core this m))
  still : ∀ {op : Op β}, allowed op → op.IsCall = false → ∀ exec (s : State β (Logged β H)),
    R s.trail (op.run host.logged exec s).1.isEndless (op.run host.logged exec s).2.trail

namespace Conducts

variable {host : Host β H} {allowed : Op β → Prop} {R : Trail β → Bool → Trail β → Prop}
  {exec : Executor β (Logged β H)} {n : Nat}

/-- An act ends as the relation says. -/
def Goes (R : Trail β → Bool → Trail β → Prop) (act : Act β (Logged β H) α)
    (s : State β (Logged β H)) : Prop :=
  R s.trail (act s).1.isEndless (act s).2.trail

/-- Cells run as the relation says where there is room for so many frames at most. -/
def Runs (_ : Conducts host allowed R) (n : Nat) (exec : Executor β (Logged β H)) : Prop :=
  ∀ v m this args s, s.trail.room ≤ n → Goes R (exec v m this args) s

variable (k : Conducts host allowed R)
include k

theorem invokeSlot (hx : k.Runs n exec) (v : VmRef) (this : ObjectRef) (slot : Nat)
    (args : List Value) {s : State β (Logged β H)} (hs : s.trail.room ≤ n) :
    Goes R (invokeSlot exec v this slot args) s := by
  unfold Goes Interception.invokeSlot
  simp only
  split
  · exact hx v _ this args s hs
  · exact k.refl

theorem invokeVirtual (hx : k.Runs n exec) (v : VmRef) (this : ObjectRef) (name : String)
    (args : List Value) {s : State β (Logged β H)} (hs : s.trail.room ≤ n) :
    Goes R (invokeVirtual exec v this name args) s := by
  unfold Goes Interception.invokeVirtual
  simp only
  split
  · exact k.invokeSlot hx v this _ args hs
  · exact k.refl

theorem invokeDirect (hx : k.Runs n exec) (v : VmRef) (this : ObjectRef) (name : String)
    (args : List Value) {s : State β (Logged β H)} (hs : s.trail.room ≤ n) :
    Goes R (invokeDirect exec v this name args) s := by
  unfold Goes Interception.invokeDirect
  simp only
  split
  · exact hx v _ this args s hs
  · exact k.refl

theorem invokeMethod (hx : k.Runs n exec) (v : VmRef) (caller : Option ClassRef) (m : CellRef)
    (this : ObjectRef) (args : List Value) {s : State β (Logged β H)} (hs : s.trail.room ≤ n) :
    Goes R (invokeMethod exec v caller m this args) s := by
  unfold Goes Interception.invokeMethod
  simp only
  split
  · exact k.refl
  · split
    · exact k.refl
    · exact hx v m this args s hs

theorem invokeHandler (hx : k.Runs n exec) (v : VmRef) (core : Core) (handler : ObjectRef)
    (m : CellRef) (this : ObjectRef) (args : List Value) {s : State β (Logged β H)}
    (hs : s.trail.room ≤ n) :
    Goes R (invokeHandler host.logged exec v core handler m this args) s := by
  have hin : (s.begin host.logged v core this m).trail.room ≤ n := by
    rw [trail_begin, Trail.room_of_level (Trail.level_begin ..)]
    exact hs
  have hcall := k.invokeVirtual hx v handler handlerMethod (.object this :: .method m :: args) hin
  unfold Goes at hcall
  rw [trail_begin] at hcall
  have hclose := k.window hcall
  rw [Goes, invokeHandler_eq]
  simp only [trail_finish]
  exact hclose

theorem invokeTrampoline (hx : k.Runs n exec) (v : VmRef) (core : Core) (m : CellRef)
    (this : ObjectRef) (args : List Value) {s : State β (Logged β H)} (hs : s.trail.room ≤ n) :
    Goes R (invokeTrampoline host.logged exec v core m this args) s := by
  unfold Goes Interception.invokeTrampoline
  split
  · exact hx v m this args s hs
  · rename_i replaced _
    split
    · exact hx v replaced this args s hs
    · split
      · exact hx v replaced this args s hs
      · rename_i handler _
        exact k.invokeHandler hx v core handler m this args hs

theorem op (hx : k.Runs n exec) {o : Op β} (ha : allowed o) {s : State β (Logged β H)}
    (hs : s.trail.room ≤ n) : Goes R (o.run host.logged exec) s := by
  cases hcall : o.IsCall with
  | false => exact k.still ha hcall exec s
  | true =>
    cases o with
    | callVirtual v this name args => exact k.invokeVirtual hx v this name args hs
    | callSlot v this slot args => exact k.invokeSlot hx v this slot args hs
    | callDirect v this name args => exact k.invokeDirect hx v this name args hs
    | callMethod v caller m this args => exact k.invokeMethod hx v caller m this args hs
    | execute v m this args => exact hx v m this args s hs
    | callTrampoline v core m this args => exact k.invokeTrampoline hx v core m this args hs
    | _ => cases hcall

/-- Every run of a program that asks for allowed things only goes as the relation says. -/
theorem run (hx : k.Runs n exec) (p : Program β H α) (ha : p.Uses allowed)
    {s : State β (Logged β H)} (hs : s.trail.room ≤ n) :
    Goes R (p.lift.run host.logged exec) s := by
  induction p generalizing s with
  | pure a => exact k.refl
  | fail e => exact k.refl
  | panic text => exact k.refl
  | host update next ih =>
    exact ih s.world s.host.1 (ha s.world s.host.1)
      (s := { s with host := (update s.world s.host.1, s.host.2) }) hs
  | call o next ih =>
    have ho := k.op hx ha.1 hs
    unfold Goes at ho ⊢
    simp only [Program.lift, Program.run]
    generalize o.run host.logged exec s = x at ho ⊢
    obtain ⟨r, u⟩ := x
    have hlevel : u.trail.level = s.trail.level := k.level ho
    have hroom : (u.notify host.logged (.performed o)).trail.room ≤ n :=
      Nat.le_trans (Nat.le_of_eq (Trail.room_of_level hlevel)) hs
    cases r with
    | value a =>
      have hrest := ih (.ok a) (ha.2 _) hroom
      exact k.trans (k.trans ho k.performed) hrest
    | error e =>
      have hrest := ih (.error e) (ha.2 _) hroom
      exact k.trans (k.trans ho k.performed) hrest
    | panic text => exact ho
    | endless => exact ho

/-- Every run of a cell does, where there is no more room than frames may be nested. -/
theorem runs_execute (hb : ∀ b v this args, (host.body b v this args).Uses allowed) (n : Nat) :
    k.Runs n (execute host.logged n) := by
  induction n with
  | zero =>
    intro v m this args s hs
    have hfull : s.world.maxDepth v ≤ s.thread.depth :=
      Nat.le_trans (s.world.maxDepth_le_depthBound v) (Nat.sub_eq_zero_iff_le.mp (by
        exact Nat.le_zero.mp hs))
    exact k.refused hfull
  | succ n ih =>
    intro v m this args s hs
    unfold Goes
    by_cases hd : s.thread.depth < s.world.maxDepth v
    · rw [execute_admitted host.logged hd]
      have hroom : (s.enter host.logged v m this args).trail.room ≤ n := by
        have hs' : s.world.depthBound - s.thread.depth ≤ n + 1 := hs
        show s.world.depthBound - (s.thread.depth + 1) ≤ n
        omega
      have hcell : R (s.trail.enter v m this args)
          (runCell host.logged (execute host.logged n) v m this args
            (s.enter host.logged v m this args)).1.isEndless
          (runCell host.logged (execute host.logged n) v m this args
            (s.enter host.logged v m this args)).2.trail := by
        rw [← trail_enter s host]
        unfold runCell
        simp only
        split
        · exact k.run ih _ (hb _ v this args) hroom
        · exact k.refl
        · exact k.invokeTrampoline ih v _ m this args hroom
      exact k.frame hd hcell
    · rw [execute_refused host.logged (by omega)]
      exact k.refused (Nat.le_of_not_lt hd)

/-- So does every program that is started. -/
theorem start (hb : ∀ b v this args, (host.body b v this args).Uses allowed)
    (p : Program β H α) (hp : p.Uses allowed) (s : State β (Logged β H)) :
    Goes R (p.lift.start host.logged) s :=
  k.run (k.runs_execute hb s.room) p hp (Nat.le_refl s.room)

end Conducts

/-- Whatever runs comes back to the level it started from. -/
theorem conducts_level (host : Host β H) :
    Conducts host (fun _ => True) fun t _ u => u.level = t.level where
  level h := h
  refl := rfl
  trans h h' := h'.trans h
  performed := rfl
  refused _ := rfl
  frame _ h := Trail.level_leave h
  window h := (Trail.level_finish ..).trans (h.trans (Trail.level_begin ..))
  still _ hop exec s := (Op.run_still host exec hop s).1

end Interception
