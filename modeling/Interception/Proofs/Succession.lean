/-
What can be met after a world.

A run may ask for anything: it may set up registries, patch by hand, write into cells and install
tables.  Nothing is lost by that all the same: what was made stays, classes keep their names and
ancestors, and registries keep their rows and their index.  So says `Grows`, for each operation
that runs no cell, and a run is made of these, of frames and of windows.  What is recorded on the
way is in between, so of any two worlds that a run shows the later one has all that the earlier
one has.
-/
import Interception.Proofs.Depths
import Interception.Proofs.WindowSteps

namespace Interception

variable {β H : Type}

/-! ### Steps -/

/-- An operation that runs no cell loses nothing. -/
theorem Op.grows_run (host : Host β H) (exec : Executor β (Logged β H)) {op : Op β}
    (hop : op.IsCall = false) (s : State β (Logged β H)) :
    s.world.Grows (op.run host.logged exec s).2.world := by
  cases op with
  | define v d =>
    simp only [Op.run]
    split
    · rename_i hd
      exact (World.extends_define hd).grows
    · exact .refl _
  | allocate v c => exact (World.extends_allocate 0 s.world v c).grows
  | setField o i x =>
    simp only [Op.run]
    split
    · rename_i hf
      exact (World.extends_setField 0 hf).grows
    · exact .refl _
  | patch v core c => exact (World.extends_patch s.world v core (Nat.zero_le c.index)).grows
  | bind v core o => exact ((World.onlyObjects_bind s.world v core o).toExtends 0).grows
  | openWindow v core o m => exact (World.shifts_openWindow s.world s.thread v core o m).grows
  | closeWindow g => exact (World.shifts_closeWindow s.world s.thread g).grows
  | overwrite m d => exact (World.shifts_overwrite s.world m d).grows
  | install c t => exact (World.shifts_install s.world c t).grows
  | newCell d => exact { World.Grows.refl s.world with cells := fun m hm => hm.add d }
  | newTable cells => exact { World.Grows.refl s.world with tables := Store.keeps_add _ _ }
  | newRegistry rows => exact (World.extends_newRegistry 0 s.world rows).grows
  | _ => cases hop

/-- Nothing is lost from any world of a run to a later one. -/
def Trail.Accrues (t u : Trail β) : Prop :=
  ∃ new, u.log = new ++ t.log ∧ (u.world :: new.map Moment.world ++ [t.world]).Pairwise
    fun later earlier => earlier.Grows later

namespace Trail.Accrues

variable {t u x : Trail β}

/-- One step that is not recorded. -/
theorem silent (hlog : u.log = t.log) (hg : t.world.Grows u.world) : t.Accrues u :=
  ⟨[], hlog, List.pairwise_pair.mpr hg⟩

/-- One step that is recorded with the world that it leads to. -/
theorem noted {y : Moment β} (hlog : u.log = y :: t.log) (hy : y.world = u.world)
    (hg : t.world.Grows u.world) : t.Accrues u := by
  refine ⟨[y], hlog, ?_⟩
  rw [List.map_singleton, hy]
  exact .cons (List.forall_mem_cons.mpr ⟨.refl _, List.forall_mem_singleton.mpr hg⟩)
    (List.pairwise_pair.mpr hg)

theorem trans (h : t.Accrues u) (h' : u.Accrues x) : t.Accrues x := by
  obtain ⟨new, hlog, hnew⟩ := h
  obtain ⟨new', hlog', hnew'⟩ := h'
  refine ⟨new' ++ new, by rw [hlog', hlog, List.append_assoc], ?_⟩
  have hsplit : x.world :: (new' ++ new).map Moment.world ++ [t.world] =
      (x.world :: new'.map Moment.world) ++ (new.map Moment.world ++ [t.world]) := by
    simp only [List.map_append, List.cons_append, List.append_assoc]
  rw [hsplit, List.pairwise_append]
  rw [List.pairwise_append] at hnew'
  obtain ⟨hlater, -, hfrom⟩ := hnew'
  rw [List.cons_append, List.pairwise_cons] at hnew
  obtain ⟨hto, hearlier⟩ := hnew
  refine ⟨hlater, hearlier, fun later hl earlier he => ?_⟩
  exact (hto earlier he).trans (hfrom later hl _ (List.mem_singleton_self _))

end Trail.Accrues

/-- Whatever is asked for, a run loses nothing. -/
theorem conducts_accrues (host : Host β H) :
    Conducts host (fun _ => True) fun t _ u => u.level = t.level ∧ t.Accrues u where
  level h := h.1
  refl := ⟨rfl, .silent rfl (.refl _)⟩
  trans h h' := ⟨h'.1.trans h.1, h.2.trans h'.2⟩
  performed := ⟨rfl, .noted rfl rfl (.refl _)⟩
  refused _ := ⟨rfl, .noted rfl rfl (.refl _)⟩
  frame {t u b v m this args} _ h := by
    have henter : t.Accrues (t.enter v m this args) := .noted rfl rfl (.refl _)
    have hleave : u.Accrues (u.leave v m this) := .noted rfl rfl (.refl _)
    exact ⟨Trail.level_leave h.1, (henter.trans h.2).trans hleave⟩
  window {t u b v core m this} h := by
    have hbegin : t.Accrues (t.begin v core this m) :=
      .noted rfl rfl (World.shifts_openWindow t.world t.thread v core this m).grows
    have hfinish : u.Accrues (u.finish (t.guardFor v core this m)) :=
      .noted rfl rfl (World.shifts_closeWindow u.world u.thread _).grows
    exact ⟨(Trail.level_finish ..).trans (h.1.trans (Trail.level_begin ..)),
      (hbegin.trans h.2).trans hfinish⟩
  still _ hop exec s := by
    obtain ⟨hlevel, hhost⟩ := Op.run_still host exec hop s
    exact ⟨hlevel, .silent (congrArg Prod.snd hhost) (Op.grows_run host exec hop s)⟩

/-! ### Worlds met -/

/-- The worlds that running a program shows, newest first: what it leaves, what is recorded of it
and what it starts from. -/
def worldsMet {α : Type} (host : Host β H) (p : Program β H α) (s : State β (Logged β H)) :
    List (World β) :=
  let t := (p.lift.start host.logged s).2
  t.world :: (t.host.2.take (t.host.2.length - s.host.2.length)).map Moment.world ++ [s.world]

/-- None of them has lost anything that an earlier one has. -/
theorem pairwise_worldsMet {α : Type} (host : Host β H) (p : Program β H α)
    (s : State β (Logged β H)) :
    (worldsMet host p s).Pairwise fun later earlier => earlier.Grows later := by
  have hrun := (conducts_accrues host).start (fun _ _ _ _ => Program.uses_anything _) p
    (Program.uses_anything p) s
  obtain ⟨-, new, hlog, hnew⟩ := hrun
  have hlog' : (p.lift.start host.logged s).2.host.2 = new ++ s.host.2 := hlog
  rw [worldsMet, hlog', List.length_append, Nat.add_sub_cancel, List.take_left]
  exact hnew

/-- A world that can be met after another: registries and machines were set up, and programs run,
with whatever they ask for. -/
inductive Follows (host : Host β H) (w : World β) : World β → Prop
  | refl : Follows host w w
  | registry {w' : World β} (h : Follows host w w') (rows : List Row) :
      Follows host w (w'.newRegistry rows).2
  | machine {w' : World β} (h : Follows host w w') (options : VmOptions) (core : Core) :
      Follows host w (w'.newVmAround options core).2
  | run {w' w'' : World β} (h : Follows host w w') {α : Type} (p : Program β H α)
      (s : State β (Logged β H)) (hmet : [w'', w'].Sublist (worldsMet host p s)) :
      Follows host w w''

/-- What a program leaves follows what it starts from. -/
theorem Follows.start {host : Host β H} {w : World β} {s : State β (Logged β H)}
    (h : Follows host w s.world) {α : Type} (p : Program β H α) :
    Follows host w (p.lift.start host.logged s).2.world :=
  .run h p s ((List.sublist_append_right _ [s.world]).cons_cons _)

/-- Nothing is lost, whatever is set up and run. -/
theorem Follows.grows {host : Host β H} {w w' : World β} (h : Follows host w w') : w.Grows w' := by
  induction h with
  | refl => exact .refl w
  | @registry w' _ rows ih => exact ih.trans (World.extends_newRegistry 0 w' rows).grows
  | @machine w' _ options core ih =>
    exact ih.trans (World.extends_newVmAround w' options core).grows
  | run _ p s hmet ih =>
    have hpair := (pairwise_worldsMet host p s).sublist hmet
    exact ih.trans (List.rel_of_pairwise_cons hpair (List.mem_singleton_self _))

end Interception
