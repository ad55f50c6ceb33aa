/-
Every call ends.

A body is a finite program and the depth of calls is bounded, so a run that would not end could
only hang in an allocation, making handlers for handlers without end.  It never does: a row is
settled for a class when this is initialized, the handler class is there already, and so is
every class above; so each handler's class is older than the class it is for, and there are only
so many.  Only patching by hand could settle a row for a class that is older than its handlers.
-/
import Interception.Proofs.Accounting
import Interception.Proofs.Depths

namespace Interception

variable {β H α γ : Type}

/-! ### Older classes -/

namespace World

variable {w w' : World β} {v : VmRef} {c s : ClassRef} {g : RegistryRef} {o : ObjectRef}

/-- Superclasses and handler classes are older than the classes they are for, and a machine
knows no class that was not made. -/
structure Descends (w : World β) : Prop extends w.HandlersFirst where
  above : ∀ {c a}, a ∈ w.ancestors c → a.index < c.index
  known : ∀ {v c}, w.Registered v c → w.classes.Live c

namespace Descends

theorem empty : ({} : World β).Descends where
  toHandlersFirst := .empty
  above h := by cases h
  known h := absurd h not_registered_empty

/-- Where there are the same classes, the machines know no others and no entry was filled in. -/
theorem of_sameClasses (h : w.Descends) (hfirst : w'.HandlersFirst) (hs : w.SameClasses w')
    (hknown : ∀ {v c}, w'.Registered v c → w.classes.Live c) : w'.Descends where
  toHandlersFirst := hfirst
  above {c a} ha := by
    rw [World.ancestors, (hs.alike c).ancestors] at ha
    exact h.above ha
  known hc := (hs.live _).mpr (hknown hc)

theorem of_onlyObjects (h : w.Descends) (ho : w.OnlyObjects w') : w'.Descends := by
  refine h.of_sameClasses (h.toHandlersFirst.of_onlyObjects ho) ho.sameClasses fun {u c} hc => ?_
  obtain ⟨n, hn⟩ := ho.vms u
  rw [Registered, hn] at hc
  exact h.known hc

theorem of_shifts (h : w.Descends) (hs : w.Shifts w') : w'.Descends := by
  refine h.of_sameClasses (h.toHandlersFirst.of_resolves hs.resolves.mp) hs.sameClasses
    fun {u c} hc => ?_
  rw [Registered, hs.vms] at hc
  exact h.known hc

theorem newRegistry (h : w.Descends) (rows : List Row) : (w.newRegistry rows).2.Descends :=
  h.of_sameClasses (h.toHandlersFirst.of_resolves resolves_newRegistry)
    ⟨fun _ => Iff.rfl, fun _ => .refl _⟩ h.known

theorem link (h : w.Descends) (d : ClassDecl β) (number : Nat) {super? : Option ClassRef}
    (hsuper : ∀ s, super? = some s → w.classes.Live s) : (w.link d number super?).2.Descends := by
  refine ⟨h.toHandlersFirst.of_resolves fun hr => hr, fun {c a} ha => ?_, fun {u c} hc => ?_⟩
  · by_cases hc : c = w.classes.next
    · subst hc
      rw [World.ancestors, (get_link_next w d number super?).ancestors] at ha
      cases super? with
      | none => cases ha
      | some s =>
        have hs : s.index < w.classes.size := hsuper s rfl
        rcases List.mem_cons.mp ha with rfl | ha
        · exact hs
        · exact Nat.lt_trans (h.above ha) hs
    · rw [World.ancestors, get_link_of_ne w d number super? hc] at ha
      exact h.above ha
  · exact (live_link_iff w d number super? c).mpr (Or.inl (h.known hc))

theorem enroll (h : w.Descends) (hv : w.vms.Live v) (hc : w.classes.Live c)
    (hafter : ∀ a, w.Registered v a → a.index < c.index) : (w.enroll v c).Descends := by
  refine h.of_sameClasses (h.toHandlersFirst.enroll hafter) (sameClasses_enroll w v c)
    fun {u a} ha => ?_
  rcases (registered_enroll hv).mp ha with ha | ⟨-, rfl⟩
  · exact h.known ha
  · exact hc

theorem define (h : w.Descends) {d : ClassDecl β} (hd : w.define v d = .ok (c, w')) :
    w'.Descends := by
  obtain ⟨rfl, s, hs, rfl⟩ := define_enrolls hd
  have hreg := registered_of_findClass hs
  refine (h.link d _ fun a ha => ?_).enroll hreg.live_vm (Store.live_next_add _ _)
    fun a ha => h.known ha
  cases ha
  exact h.known hreg

theorem newVmAround (h : w.Descends) (options : VmOptions) (core : Core) :
    (w.newVmAround options core).2.Descends := by
  have hroot : w.rootLinked.Descends := h.link _ 0 fun s hs => by cases hs
  have hproxy := hroot.link { name := proxyClassName
                              fields := [⟨handlerFieldName, handlerFieldType⟩] } 1
    w.live_rootLinked
  have hbare : (w.bareMachine options core).Descends := by
    refine hproxy.of_sameClasses (hproxy.toHandlersFirst.of_resolves fun hr => hr)
      ⟨fun _ => Iff.rfl, fun _ => .refl _⟩ fun {u c} hc => ?_
    rw [Registered, vmClasses_bareMachine] at hc
    exact hproxy.known hc
  have hnone : ∀ a, ¬ (w.bareMachine options core).Registered w.vms.next a := fun a ha => by
    rw [Registered, vmClasses_bareMachine, Store.get_of_not_live w.vms.not_live_next] at ha
    exact absurd ha (Array.not_mem_empty a)
  have hlive : (w.bareMachine options core).vms.Live w.vms.next := Store.live_next_add _ _
  have hsize := size_bareMachine w options core
  rw [newVmAround_enrolls]
  generalize w.bareMachine options core = b at *
  refine (hbare.enroll hlive ?_ fun a ha => absurd ha (hnone a)).enroll (live_enroll.mpr hlive) ?_
    fun a ha => ?_
  · rw [Store.Live, hsize]
    exact Nat.lt_add_of_pos_right Nat.two_pos
  · rw [(sameClasses_enroll _ _ _).live, Store.Live, hsize]
    exact Nat.lt_succ_self _
  · rcases (registered_enroll hlive).mp ha with hbefore | ⟨-, rfl⟩
    · exact absurd hbefore (hnone a)
    · exact Nat.lt_succ_self w.classes.size

end Descends

/-! ### Allocations -/

theorem andThen_ne_endless {σ : Type} {r : Ending α × σ} {k : α → σ → Ending γ × σ}
    (hr : r.1 ≠ .endless) (hk : ∀ a s, r = (.value a, s) → (k a s).1 ≠ .endless) :
    (Ending.andThen r k).1 ≠ .endless := by
  obtain ⟨e, s⟩ := r
  cases e with
  | value a => exact hk a s rfl
  | error e => exact Ending.error_ne_endless e
  | panic text => exact fun h => by cases h
  | endless => exact absurd rfl hr

/-- The hook ends if the allocation of the handler does. -/
theorem bindWith_ne_endless {allocate : World β → ClassRef → Ending ObjectRef × World β}
    (ha : ∀ i r, w.interceptionOf g (w.classOf o) = some (i, r) →
      (allocate w r.handlerClass).1 ≠ .endless) : (bindWith allocate w g o).1 ≠ .endless := by
  unfold bindWith
  split
  · exact Ending.value_ne_endless _
  · rename_i i r hr
    refine andThen_ne_endless (ha i r hr) fun h x _ => ?_
    split
    · exact Ending.value_ne_endless _
    · exact Ending.error_ne_endless _

/-- The classes of a chain of handlers get older and older. -/
theorem allocateWithin_ne_endless (h : w.Descends) {fuel : Nat} (hfuel : c.index < fuel) :
    (allocateWithin v fuel w c).1 ≠ .endless := by
  induction fuel generalizing w c with
  | zero => exact absurd hfuel (Nat.not_lt_zero _)
  | succ fuel ih =>
    by_cases hinit : (w.classes.get c).initialized = true
    · rw [allocateWithin_succ fuel hinit]
      have hnew := onlyObjects_newObject (live_of_initialized hinit)
      refine andThen_ne_endless (bindWith_ne_endless fun i r hr => ?_) fun _ _ _ =>
        Ending.value_ne_endless _
      rw [classOf_newObject] at hr
      obtain ⟨-, hres, hmem⟩ := interceptionOf_eq_some.mp hr
      have hdescends := h.of_onlyObjects hnew
      have hle : r.cls.index ≤ c.index := by
        rcases List.mem_cons.mp hmem with heq | habove
        · exact Nat.le_of_eq (congrArg Ref.index heq)
        · exact Nat.le_of_lt (hdescends.above habove)
      have holder := hdescends.older hres
      exact ih hdescends (by omega)
    · rw [allocateWithin, if_neg hinit]
      exact Ending.error_ne_endless _

theorem allocate_ne_endless (h : w.Descends) (v : VmRef) (c : ClassRef) :
    (w.allocate v c).1 ≠ .endless := by
  by_cases hc : w.classes.Live c
  · exact allocateWithin_ne_endless h (Nat.lt_succ_of_lt hc)
  · have hinit : (w.classes.get c).initialized = false := by
      rw [Store.get_of_not_live hc]
      rfl
    rw [allocate, allocateWithin, if_neg (by rw [hinit]; exact Bool.false_ne_true)]
    exact Ending.error_ne_endless _

theorem bind_ne_endless (h : w.Descends) (v : VmRef) (core : Core) (o : ObjectRef) :
    (w.bind v core o).1 ≠ .endless :=
  bindWith_ne_endless fun _ r _ => allocate_ne_endless h v r.handlerClass

end World

/-! ### Runs -/

/-- Patching by hand. -/
def Op.IsPatch : Op β → Bool
  | .patch .. => true
  | _ => false

/-- An operation that calls nothing ends, and classes stay in their order, unless it patches. -/
theorem Op.run_descends (host : Host β H) (exec : Executor β H) {op : Op β}
    (hpatch : op.IsPatch = false) (hcall : op.IsCall = false) {s : State β H}
    (h : s.world.Descends) :
    (op.run host exec s).2.world.Descends ∧ (op.run host exec s).1 ≠ .endless := by
  cases op with
  | define v d =>
    simp only [Op.run]
    split
    · rename_i hd
      exact ⟨h.define hd, Ending.value_ne_endless _⟩
    · exact ⟨h, Ending.error_ne_endless _⟩
  | allocate v c =>
    exact ⟨h.of_onlyObjects (World.onlyObjects_allocate s.world v c),
      World.allocate_ne_endless h v c⟩
  | setField o i x =>
    simp only [Op.run]
    split
    · rename_i hf
      exact ⟨h.of_onlyObjects (World.onlyObjects_setField hf), Ending.value_ne_endless _⟩
    · exact ⟨h, Ending.error_ne_endless _⟩
  | bind v core o =>
    exact ⟨h.of_onlyObjects (World.onlyObjects_bind s.world v core o),
      World.bind_ne_endless h v core o⟩
  | openWindow v core o m =>
    exact ⟨h.of_shifts (World.shifts_openWindow s.world s.thread v core o m),
      Ending.value_ne_endless _⟩
  | closeWindow g =>
    exact ⟨h.of_shifts (World.shifts_closeWindow s.world s.thread g), Ending.value_ne_endless _⟩
  | overwrite m d =>
    exact ⟨h.of_shifts (World.shifts_overwrite s.world m d), Ending.value_ne_endless _⟩
  | install c t =>
    exact ⟨h.of_shifts (World.shifts_install s.world c t), Ending.value_ne_endless _⟩
  | newCell d =>
    exact ⟨h.of_sameClasses (h.toHandlersFirst.of_resolves fun hr => hr)
      ⟨fun _ => Iff.rfl, fun _ => .refl _⟩ h.known, Ending.value_ne_endless _⟩
  | newTable cells =>
    exact ⟨h.of_sameClasses (h.toHandlersFirst.of_resolves fun hr => hr)
      ⟨fun _ => Iff.rfl, fun _ => .refl _⟩ h.known, Ending.value_ne_endless _⟩
  | newRegistry rows => exact ⟨h.newRegistry rows, Ending.value_ne_endless _⟩
  | patch v core c => cases hpatch
  | _ => cases hcall

/-- Runs without patching by hand end, and keep classes in their order. -/
theorem conducts_descends (host : Host β H) : Conducts host (fun op => op.IsPatch = false)
    fun t b u => u.level = t.level ∧ (t.world.Descends → u.world.Descends ∧ b = false) where
  level h := h.1
  refl := ⟨rfl, fun h => ⟨h, rfl⟩⟩
  trans h h' := ⟨h'.1.trans h.1, fun hw => h'.2 (h.2 hw).1⟩
  performed := ⟨rfl, fun h => ⟨h, rfl⟩⟩
  refused _ := ⟨rfl, fun h => ⟨h, rfl⟩⟩
  frame _ h := ⟨Trail.level_leave h.1, h.2⟩
  window {t u b v core m this} h := by
    refine ⟨(Trail.level_finish ..).trans (h.1.trans (Trail.level_begin ..)), fun hw => ?_⟩
    have hopen := World.shifts_openWindow t.world t.thread v core this m
    have hclose := World.shifts_closeWindow u.world u.thread (t.guardFor v core this m)
    obtain ⟨hin, hends⟩ := h.2 (hw.of_shifts hopen)
    exact ⟨hin.of_shifts hclose, hends⟩
  still ha hcall exec s := by
    refine ⟨(Op.run_still host exec hcall s).1, fun h => ?_⟩
    obtain ⟨hw, hends⟩ := Op.run_descends host.logged exec ha hcall h
    exact ⟨hw, Ending.isEndless_eq_false_iff.mpr hends⟩

theorem Reached.descends {host : Host β H} {s : State β (Logged β H)}
    (hb : ∀ b v this args, (host.body b v this args).Uses fun op => op.IsPatch = false)
    (hs : Reached host (fun op => op.IsPatch = false) s) : s.world.Descends := by
  induction hs with
  | start h => exact .empty
  | registry _ rows ih => exact ih.newRegistry rows
  | machine _ options core _ ih => exact ih.newVmAround options core
  | @run s _ _ p hp ih => exact (((conducts_descends host).start hb p hp s).2 ih).1

/-- **Calls are bounded, and end.**  Whatever a host's bodies ask for, a call on a machine is
refused, with the depth it would have had and nothing else done, if and only if that depth is
above the machine's limit; any other call runs the cell in a frame of its own.  In a program
started with no call open, nothing is deeper than the largest limit, and where only one machine
admits frames, all its refusals carry its limit and one more.  And where classes are patched by
their initialization alone, every program that is started comes to an end. -/
theorem Host.bounds_calls (host : Host β H) (p : Program β H α) :
    (∀ v m this args (t : State β H), call host v m this args t =
      if t.world.maxDepth v < t.thread.depth + 1 then
        (.error (.stackOverflow (t.thread.depth + 1)), t.notify host (.refused v m this))
      else inFrame host v m this args (runCell host (call host) v m this args) t) ∧
    (∀ t : State β H, p.start host t = p.run host (call host) t) ∧
    (∀ s : State β (Logged β H), s.thread.depth = 0 →
      (p.lift.start host.logged s).2.thread.depth = 0 ∧
      ∃ new, (p.lift.start host.logged s).2.host.2 = new ++ s.host.2 ∧
        (∀ x ∈ new, (∀ v, x.world.maxDepth v = s.world.maxDepth v) ∧
          x.thread.depth ≤ s.world.depthBound ∧
          (∀ v, x.event.refusedBy? = some v → s.world.maxDepth v < x.thread.depth + 1) ∧
          ∀ v, x.event.admittedBy? = some v → x.thread.depth ≤ s.world.maxDepth v) ∧
        ∀ v, (∀ y ∈ new, ∀ u, y.event.admittedBy? = some u → u = v) →
          ∀ x ∈ new, x.event.refusedBy? = some v →
          x.thread.depth = s.world.maxDepth v ∧
          ∀ m this args h, (call host v m this args ⟨x.world, x.thread, h⟩).1 =
            .error (.stackOverflow (s.world.maxDepth v + 1))) ∧
    ((∀ b v this args, (host.body b v this args).Uses fun op => op.IsPatch = false) →
      p.Uses (fun op => op.IsPatch = false) →
      ∀ s : State β (Logged β H), Reached host (fun op => op.IsPatch = false) s →
        (p.lift.start host.logged s).1 ≠ .endless) := by
  refine ⟨fun v m this args t => ?_, start_eq host p, fun s hs => ?_, fun hb hp s hreached => ?_⟩
  · split
    · rename_i h
      exact call_refused host h
    · rename_i h
      exact call_admitted host (by omega)
  · have hpaced := (conducts_paced host).start (fun _ _ _ _ => Program.uses_anything _) p
      p.uses_anything s
    obtain ⟨new, hlog, hnew⟩ := hpaced.log
    have hstart : s.trail.thread.depth = 0 := hs
    have hlimit : ∀ x ∈ new, ∀ v, x.world.maxDepth v = s.world.maxDepth v := fun x hx v => by
      rw [World.maxDepth_eq, (hnew x hx).limits, World.maxDepth_eq]
      rfl
    refine ⟨(Trail.depth_of_level hpaced.level).trans hs, new, hlog, fun x hx =>
      ⟨hlimit x hx, ?_, fun v hv => Nat.lt_succ_of_le ((hnew x hx).refused v hv),
        (hnew x hx).admitted⟩, fun v hone x hx hv => ?_⟩
    · have hle := (hnew x hx).depth_le (hstart ▸ Nat.zero_le _)
      rw [World.depthBound_eq, (hnew x hx).limits] at hle
      rw [World.depthBound_eq]
      exact hle
    · have hdepth := (hnew x hx).depth_eq hstart hone hv
      have hfull : x.thread.depth = s.world.maxDepth v := hdepth
      refine ⟨hfull, fun m this args h => ?_⟩
      rw [call_refused host (s := ⟨x.world, x.thread, h⟩) (by
        show x.world.maxDepth v < x.thread.depth + 1
        rw [hlimit x hx, hfull]
        exact Nat.lt_succ_self _)]
      show Ending.error (.stackOverflow (x.thread.depth + 1)) = _
      rw [hfull]
  · have hends := (conducts_descends host).start hb p hp s
    exact Ending.isEndless_eq_false_iff.mp (hends.2 (hreached.descends hb)).2

/-! ### The demonstration -/

namespace Demo

/-- A machine that allows two calls at a time, beside one that allows five. -/
def cramped : State Body (Logged Body Tally) :=
  let s : World Body := (World.newVm {} { maxDepth := 2 }).2
  ⟨(s.newVmAround { maxDepth := 5 } (s.coreOf ⟨0⟩)).2, {}, ({}, [])⟩

theorem reached_cramped : Reached host (fun op => op.IsPatch = false) cramped :=
  (Reached.newVm ({} : Tally) { maxDepth := 2 }).machine { maxDepth := 5 } _
    (by decide +kernel)

/-- The handler's call through would be the third call: it is refused at depth two, and the whole
ends. -/
theorem bounded_cramped : ((opening ⟨0⟩).lift.start host.logged cramped).1 ≠ .endless ∧
    ((opening ⟨0⟩).lift.start host.logged cramped).2.thread.depth = 0 ∧
    ∃ x ∈ ((opening ⟨0⟩).lift.start host.logged cramped).2.host.2,
      x.event.refusedBy? = some ⟨0⟩ ∧ x.thread.depth = 2 ∧ ∀ m this args h,
        (call host ⟨0⟩ m this args ⟨x.world, x.thread, h⟩).1 = .error (.stackOverflow 3) := by
  obtain ⟨-, -, hbounded, hends⟩ := Host.bounds_calls host (opening ⟨0⟩)
  obtain ⟨hdepth, new, hlog, -, hone⟩ := hbounded cramped rfl
  have hlimit : cramped.world.maxDepth ⟨0⟩ = 2 := by decide +kernel
  have hnew : new = ((opening ⟨0⟩).lift.start host.logged cramped).2.host.2 := by
    rw [hlog]
    exact (List.append_nil _).symm
  have halone : ∀ y ∈ ((opening ⟨0⟩).lift.start host.logged cramped).2.host.2,
      y.event.admittedBy? = none ∨ y.event.admittedBy? = some ⟨0⟩ := by decide +kernel
  have hrefused : ∃ x ∈ ((opening ⟨0⟩).lift.start host.logged cramped).2.host.2,
      x.event.refusedBy? = some ⟨0⟩ := by decide +kernel
  rw [← hnew] at halone hrefused ⊢
  obtain ⟨x, hx, hrefuses⟩ := hrefused
  have hfull := hone ⟨0⟩ (fun y hy u hu => by
    rcases halone y hy with hnone | hzero
    · cases hnone.symm.trans hu
    · exact Option.some.inj (hu.symm.trans hzero)) x hx hrefuses
  rw [hlimit] at hfull
  exact ⟨hends (uses_callMethod rfl) (uses_opening rfl rfl rfl ⟨0⟩) cramped reached_cramped,
    hdepth, x, hx, hrefuses, hfull⟩

end Demo

end Interception
