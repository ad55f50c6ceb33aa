/-
Rows above rows.

Where a class with a row has a superclass with one, the table it is linked with holds the
trampolines of the class above.  Its own cells are trampolines before these, or verbatim
copies of them, and how a call fares depends on how windows are opened.

Per call, each trampoline on the way to the original has a window of its own.  The handler is
entered once for every one of them and the original is run once: an induction on the chain of
originals, in which the windows noted so far belong to longer chains than the one ahead.

Over the whole class, what a window writes into the trampoline comes from the table that the
nearest row replaced.  If that is a plain descriptor, the call is as if there were no other
row.  If it is a trampoline, the window leads nowhere: the handler's call through comes back
to the handler until calls are nested too deeply, and the original is never run.
-/
import Interception.Proofs.Nearest
import Interception.Proofs.Resting
import Interception.Proofs.Stillness

namespace Interception

variable {β H : Type}

/-! ### One window after the other -/

namespace World

variable {w w' : World β} {v : VmRef} {this handler : ObjectRef} {i l : Nat} {r : Resolution}
  {inv t o : CellRef} {b : β}

theorem Calm.attended (h : w.Calm w') (hm : w.Attended v this i r handler l inv b) :
    w'.Attended v this i r handler l inv b :=
  hm.shifts h.shifts (h.handledBy hm.handled)

theorem Calm.declared? (h : w.Calm w') (hw : w.Sound) (c : ClassRef) (name : String) (k : Nat) :
    w'.declared? c name k = w.declared? c name k :=
  ((Still.refl hw).calm h).declared? c name k

/-- What is behind a trampoline in a class's slot: the cell that the chain of originals ends
at, and the cell that the class of the nearest row had in the slot before it was patched. -/
structure Behind (w : World β) (c : ClassRef) (r : Resolution) (name : String) (k : Nat)
    (t : CellRef) (m : Nat) (u o : CellRef) : Prop where
  ends : w.EndsAt (m + 1) t u
  declared : w.declared? c name k = some (w.content u)
  cell : (w.tables.get r.unpatched)[k]? = some o
  head : w.content o = { w.content u with code := (w.content o).code }
  plain : (w.content o).isTrampoline = false → w.content o = w.content u

/-- Both are for what is declared for the class. -/
theorem Sound.behind {c : ClassRef} {g : RegistryRef} {k : Nat} {name : String} (hw : w.Sound)
    (htitled : w.Titled) (he : w.Exact) (hc : w.classes.Live c)
    (hi : w.interceptionOf g c = some (i, r)) (hk : w.slotOf c name = some k)
    (ht : w.methodAt c k = some t) (htramp : (w.content t).isTrampoline = true) :
    ∃ m u o, w.Behind c r name k t m u o := by
  obtain ⟨-, hres, -⟩ := interceptionOf_eq_some.mp hi
  obtain ⟨hslot, hnearest⟩ :=
    hw.declared?_nearest htitled hc hi hk ht (hw.tabled.copied htramp)
  obtain ⟨o, ho⟩ : ∃ o, (w.tables.get r.unpatched)[k]? = some o :=
    ⟨_, List.getElem?_eq_getElem ((hw.tabled.unpatched hres).lt hslot)⟩
  obtain ⟨j, u, hends, hdeclared⟩ := hw.endsAt he hc hk ht
  obtain ⟨j', u', hends', hdeclared'⟩ := hw.endsAt_unpatched he hres ho hslot
  have hsame : w.content u' = w.content u := by
    rw [hnearest, hdeclared'] at hdeclared
    exact Option.some.inj hdeclared
  cases hends with
  | here hplain =>
    rw [Descriptor.isTrampoline, hplain] at htramp
    cases htramp
  | @through m _ t' _ ht' hrest =>
    refine ⟨m, u, o, .through ht' hrest, hdeclared, ho, ?_, fun hplain => ?_⟩
    · rw [← hsame]
      exact hends'.content hw he
    · cases hends' with
      | here _ => exact hsame
      | through ho' _ =>
        rw [Descriptor.isTrampoline, ho'] at hplain
        cases hplain

/-- The cell a trampoline replaced. -/
def original (w : World β) (t : CellRef) : CellRef := (w.content t).replaced?.getD t

/-- In a class-wide window the trampoline holds what the replaced table has in its slot, which
the window does not touch. -/
theorem content_openWindow_classWide {d : Descriptor β} (hbound : w.Bound v this i r handler)
    (hmode : (w.coreOf v).mode = .classWide) (hlive : w.cells.Live t)
    (ho : (w.tables.get r.unpatched)[(w.content t).slot]? = some o) (hd : w.content o = d)
    (th : Thread) :
    (w.openWindow th v (w.coreOf v) this t).2.1.content t = d ∧
      (w.openWindow th v (w.coreOf v) this t).2.1.content o = d := by
  rw [openWindow_classWide hbound.ordinary hbound.row hmode]
  have hself : (w.disarm r t).content t = d := (content_disarm_self hlive ho).trans hd
  refine ⟨hself, ?_⟩
  show (w.disarm r t).content o = d
  by_cases hot : o = t
  · rw [hot]
    exact hself
  · rw [content_disarm_of_ne hot]
    exact hd

end World

/-! ### Noted windows -/

/-- The frames of a call that passes so many trampolines, with a window noted for each: three for
each trampoline, one of them the handler's, and one more for what comes last. -/
def chainPath (w : World β) (v : VmRef) (this handler : ObjectRef) (inv : CellRef)
    (args : List Value) : Nat → Nat → CellRef → List Frame
  | 0, depth, t => [⟨depth + 1, v, t, this, args⟩]
  | m + 1, depth, t =>
    ⟨depth + 1, v, t, this, args⟩ ::
    ⟨depth + 2, v, inv, handler, .object this :: .method t :: args⟩ ::
    ⟨depth + 3, v, t, this, args⟩ ::
    chainPath w v this handler inv args m (depth + 3) (w.original t)

section Paths

variable {host : Host β H} {w : World β} {v : VmRef} {this handler : ObjectRef}
  {args : List Value} {i l k : Nat} {r : Resolution} {name : String} {inv t o u : CellRef} {b : β}

variable (args) in
/-- **With windows noted per call, a call passes every trampoline of the chain through its
handler and ends at the cell the chain ends at.** -/
theorem descends_chain {m : Nat} (hends : w.EndsAt m t u) (hw : w.Sound) (he : w.Exact)
    (hmode : (w.coreOf v).mode = .perCall) (hhandler : w.Attended v this i r handler l inv b)
    (hb : host.CallsThrough b)
    (hdeclared : w.declared? (w.classOf this) name k = some (w.content u)) {n : Nat}
    {s : State β (Logged β H)} (hcalm : w.Calm s.world)
    (hclear : ∀ key ∈ s.thread.windows, key.receiver = this →
      ∀ j, w.EndsAt j key.trampoline u → m < j)
    (hd : s.thread.depth ≤ s.world.maxDepth v)
    (hn : s.world.maxDepth v ≤ s.thread.depth + n) :
    Descends host v n (chainPath w v this handler inv args m s.thread.depth t) u (w.content u)
      this args s (execute host.logged n v t this args s) := by
  induction hends generalizing n s with
  | here ht => exact .frame hd hn fun _ _ hlt => .here hlt (hcalm.content _)
  | @through m t o u ht ho ih =>
    have hends : w.EndsAt (m + 1) t u := .through ht ho
    have ht' : (s.world.content t).replaced? = some o := by
      rw [hcalm.content]
      exact ht
    -- A window for this trampoline would belong to a chain longer than its own.
    have hout : ¬ ((s.world.coreOf v).mode = .perCall ∧ s.thread.inWindow t this = true) := by
      rintro ⟨-, hin⟩
      rw [Thread.inWindow, List.contains_iff_mem] at hin
      exact Nat.lt_irrefl _ (hclear _ hin rfl _ hends)
    have hmode' : (s.world.coreOf v).mode = .perCall := by
      rw [hcalm.coreOf]
      exact hmode
    have hattended := hcalm.attended hhandler
    have hopen := World.openWindow_perCall hattended.bound.ordinary hattended.bound.row hmode'
      s.deepen.thread t
    have hdeclared' : s.world.declared? (s.world.classOf this) name k = some (w.content u) := by
      rw [hcalm.classOf, hcalm.declared? hw]
      exact hdeclared
    have howner : ((s.world.openWindow s.deepen.thread v (s.world.coreOf v) this t).2.1.content
        t).owner = (w.content u).owner := by
      rw [hopen]
      show (s.world.content t).owner = _
      rw [hcalm.content, hends.content hw he]
    have horiginal : w.original t = o := by
      rw [World.original, ht]
      rfl
    rw [chainPath, horiginal]
    refine descends_intercepted (hcalm.sound hw) hattended hb ht' hout hdeclared' howner hd hn
      fun n' x hdepth hworld hwindows hxd hxn => ?_
    have hcalmx : w.Calm x.world := by
      rw [hworld, hopen]
      exact hcalm.trans (World.calm_windowOpened _ _ _)
    rw [hopen] at hwindows
    have hwindows' : x.thread.windows = ⟨t, this⟩ :: s.thread.windows := hwindows
    have hframe : s.thread.depth + 3 = x.thread.depth + 1 := by omega
    rw [hframe]
    refine .frame hxd hxn fun n'' _ hlt => ?_
    have htx : (x.world.content t).replaced? = some o := by
      rw [hcalmx.content]
      exact ht
    have hnoted : x.thread.inWindow t this = true := by
      rw [Thread.inWindow, hwindows']
      simp
    have hmodex : (x.world.coreOf v).mode = .perCall := by
      rw [hcalmx.coreOf]
      exact hmode
    rw [runCell_inWindow host.logged _ htx hmodex hnoted]
    have hroom : x.world.maxDepth v ≤ x.thread.depth + 1 + n'' := by omega
    refine ih hdeclared (s := x.enter host.logged v t this args) hcalmx ?_ hlt hroom
    intro key hkey hreceiver j hj
    have hkey' : key ∈ x.thread.windows := hkey
    rw [hwindows'] at hkey'
    rcases List.mem_cons.mp hkey' with rfl | hkey'
    · obtain ⟨rfl, -⟩ := hends.unique hj
      exact Nat.lt_succ_self m
    · exact Nat.lt_of_succ_lt (hclear key hkey' hreceiver j hj)

/-! ### Class-wide windows -/

/-- The frames of so many rounds between a trampoline and its handler. -/
def loopPath (v : VmRef) (this handler : ObjectRef) (t inv : CellRef) (args : List Value) :
    Nat → Nat → List Frame
  | 0, depth => [⟨depth + 1, v, t, this, args⟩]
  | m + 1, depth =>
    ⟨depth + 1, v, t, this, args⟩ ::
    ⟨depth + 2, v, inv, handler, .object this :: .method t :: args⟩ ::
    loopPath v this handler t inv args m (depth + 2)

theorem length_loopPath (v : VmRef) (this handler : ObjectRef) (t inv : CellRef)
    (args : List Value) (m depth : Nat) :
    (loopPath v this handler t inv args m depth).length = 2 * m + 1 := by
  induction m generalizing depth with
  | zero => rfl
  | succ m ih =>
    simp only [loopPath, List.length_cons, ih]
    omega

/-- What a class-wide window finds and leaves: the trampoline's slot in the table that the
row replaced leads to what is declared for the receiver's class. -/
structure World.Writes (w : World β) (v : VmRef) (this : ObjectRef) (r : Resolution)
    (t o : CellRef) (name : String) (k : Nat) (d : Descriptor β) : Prop where
  mode : (w.coreOf v).mode = .classWide
  receiver : w.classes.Live (w.classOf this)
  live : w.cells.Live t
  cell : (w.tables.get r.unpatched)[(w.content t).slot]? = some o
  content : w.content o = d
  slot : d.slot = (w.content t).slot
  declared : ∃ d', w.declared? (w.classOf this) name k = some d' ∧ d.owner = d'.owner

theorem World.Writes.openWindow {d : Descriptor β}
    (h : w.Writes v this r t o name k d) (hw : w.Sound) (hbound : w.Bound v this i r handler)
    (th : Thread) :
    (w.openWindow th v (w.coreOf v) this t).2.1.content t = d ∧
      (w.openWindow th v (w.coreOf v) this t).2.1.Writes v this r t o name k d := by
  have hs := shifts_openWindow w th v (w.coreOf v) this t
  obtain ⟨ht, ho⟩ := content_openWindow_classWide hbound h.mode h.live h.cell h.content th
  generalize (w.openWindow th v (w.coreOf v) this t).2.1 = w' at hs ht ho
  have hclass : w'.classOf this = w.classOf this := by
    rw [World.classOf, hs.objects, World.classOf]
  refine ⟨ht, ?_⟩
  exact
    { mode := by
        rw [World.coreOf, hs.vms]
        exact h.mode
      receiver := by
        rw [hclass]
        exact (hs.liveClasses _).mpr h.receiver
      live := (hs.cells t).mpr h.live
      cell := by
        rw [hs.tables, ht, h.slot]
        exact h.cell
      content := ho
      slot := by rw [ht]
      declared := by
        obtain ⟨d', hd', howner⟩ := h.declared
        refine ⟨d', ?_, howner⟩
        rw [hclass, hs.grows.declared? hw.lineages h.receiver]
        exact hd' }

/-- A class-wide window on a trampoline is entered through the handler, and inside the
trampoline holds what the row replaced. -/
theorem descends_written {path : List Frame} {cell : CellRef} {d e : Descriptor β} {n : Nat}
    {s : State β (Logged β H)} (hw : s.world.Sound)
    (hhandler : s.world.Attended v this i r handler l inv b) (hb : host.CallsThrough b)
    (htramp : (s.world.content t).isTrampoline = true)
    (hwrites : s.world.Writes v this r t o name k d)
    (hd : s.thread.depth ≤ s.world.maxDepth v) (hn : s.world.maxDepth v ≤ s.thread.depth + n)
    (h : ∀ (n' : Nat) (x : State β (Logged β H)), x.thread.depth = s.thread.depth + 2 →
      x.world.Sound → x.world.Attended v this i r handler l inv b →
      x.world.content t = d → x.world.Writes v this r t o name k d →
      x.thread.depth ≤ x.world.maxDepth v → x.world.maxDepth v ≤ x.thread.depth + n' →
      Descends host v n' path cell e this args x (execute host.logged n' v t this args x)) :
    Descends host v n (⟨s.thread.depth + 1, v, t, this, args⟩ ::
        ⟨s.thread.depth + 2, v, inv, handler, .object this :: .method t :: args⟩ :: path) cell e
      this args s (execute host.logged n v t this args s) := by
  obtain ⟨m, hm⟩ := Option.isSome_iff_exists.mp htramp
  obtain ⟨d', hdeclared, howner⟩ := hwrites.declared
  obtain ⟨hinside, hwrites'⟩ := hwrites.openWindow hw hhandler.bound s.deepen.thread
  have hout : ¬ ((s.world.coreOf v).mode = .perCall ∧ s.thread.inWindow t this = true) := by
    rintro ⟨hmode, -⟩
    rw [hwrites.mode] at hmode
    cases hmode
  refine descends_intercepted hw hhandler hb hm hout hdeclared (by rw [hinside]; exact howner) hd
    hn fun n' x hdepth hworld _ hxd hxn => ?_
  refine h n' x hdepth ?_ ?_ ?_ ?_ hxd hxn
  · rw [hworld]
    exact hw.openWindow htramp
  · rw [hworld]
    exact hhandler.openWindow hw htramp this
  · rw [hworld]
    exact hinside
  · rw [hworld]
    exact hwrites'

/-- **If the row replaced a trampoline, its windows come back to the handler** as often as
frames are admitted. -/
theorem descends_loop {d : Descriptor β} (htramp : d.isTrampoline = true)
    (hb : host.CallsThrough b) (m : Nat) {n : Nat} {s : State β (Logged β H)}
    (hw : s.world.Sound) (hhandler : s.world.Attended v this i r handler l inv b)
    (ht : s.world.content t = d) (hwrites : s.world.Writes v this r t o name k d)
    (hd : s.thread.depth ≤ s.world.maxDepth v)
    (hn : s.world.maxDepth v ≤ s.thread.depth + n) :
    Descends host v n (loopPath v this handler t inv args m s.thread.depth) t d this args s
      (execute host.logged n v t this args s) := by
  induction m generalizing n s with
  | zero => exact .frame hd hn fun _ _ hlt => .here hlt ht
  | succ m ih =>
    rw [loopPath]
    refine descends_written hw hhandler hb (by rw [ht]; exact htramp) hwrites hd hn
      fun n' x hdepth hsound hattended hcontent hagain hxd hxn => ?_
    rw [← hdepth]
    exact ih hsound hattended hcontent hagain hxd hxn

variable (args) in
/-- Such a call overflows, and enters no frame but those of the trampoline and its handler. -/
theorem overflows_loop {d : Descriptor β} {n : Nat} {s : State β (Logged β H)}
    (htrampoline : d.isTrampoline = true) (hb : host.CallsThrough b) (hw : s.world.Sound)
    (hhandler : s.world.Attended v this i r handler l inv b)
    (htramp : (s.world.content t).isTrampoline = true)
    (hwrites : s.world.Writes v this r t o name k d)
    (hd : s.thread.depth ≤ s.world.maxDepth v)
    (hn : s.world.maxDepth v ≤ s.thread.depth + n) :
    (execute host.logged n v t this args s).1 =
        .error (.stackOverflow (s.world.maxDepth v + 1)) ∧
      framesOf (execute host.logged n v t this args s).2.host.2 =
        ((loopPath v this handler t inv args (s.world.maxDepth v + 1) s.thread.depth).take
          (s.world.maxDepth v - s.thread.depth)).reverse ++ framesOf s.host.2 := by
  have hloop : Descends host v n
      (loopPath v this handler t inv args (s.world.maxDepth v + 1) s.thread.depth) t d this args s
      (execute host.logged n v t this args s) := by
    rw [loopPath]
    refine descends_written hw hhandler hb htramp hwrites hd hn
      fun n' x hdepth hsound hattended hcontent hagain hxd hxn => ?_
    rw [← hdepth]
    exact descends_loop htrampoline hb _ hsound hattended hcontent hagain hxd hxn
  refine hloop.beyond ?_
  rw [length_loopPath]
  omega

end Paths

/-! ### Every call from the top -/

/-- **Stacked rows, call by call.**  Between runs of ordinary bodies, on a machine that works
per call or whose bodies define no class, let an object be called whose slot holds a
trampoline; rows may be stacked above its class as they will.  Following originals from the
trampoline ends at what is declared for the class.

Per call, that is run once, and the handler is entered once for each trampoline on the way:
once if the trampoline replaced no trampoline.  Over the whole class, it is run once and the
handler is entered once if the table that the nearest row replaced holds no trampoline in the
slot; and if it holds one, the call overflows between the trampoline and its handler, without
the original being run. -/
theorem Reached.calls_stacked {host : Host β H} {s : State β (Logged β H)}
    (hbodies : ∀ b v this args,
      (host.body b v this args).Uses fun op => op.IsOrdinary = true)
    (hs : Reached host (fun op => op.IsOrdinary = true) s)
    (hdefine : s.world.PerCall ∨
      ∀ b v this args, (host.body b v this args).Uses fun op => op.KeepsClasses = true)
    {v : VmRef} {this handler : ObjectRef} {i : Nat} {r : Resolution}
    (hbound : s.world.Bound v this i r handler)
    (hfree : ∀ a ∈ s.world.lineage r.handlerClass,
      s.world.ownEntry (s.world.coreOf v).registry a = none)
    {b : β} (hinvoke : s.world.handlerBody? r.handlerClass = some b) (hb : host.CallsThrough b)
    {name : String} {k : Nat} {t : CellRef}
    (hk : s.world.slotOf (s.world.classOf this) name = some k)
    (ht : s.world.methodAt (s.world.classOf this) k = some t)
    (htramp : (s.world.content t).isTrampoline = true) (args : List Value) {n : Nat}
    (hn : s.world.maxDepth v ≤ n) :
    ∃ l inv m u o, s.world.HandledBy r.handlerClass l inv b ∧ s.world.EndsAt (m + 1) t u ∧
      s.world.declared? (s.world.classOf this) name k = some (s.world.content u) ∧
      (s.world.tables.get r.unpatched)[k]? = some o ∧
      match (s.world.coreOf v).mode with
      | .perCall =>
        Descends host v n (chainPath s.world v this handler inv args (m + 1) 0 t) u
          (s.world.content u) this args s (invokeVirtual (execute host.logged n) v this name args s)
      | .classWide =>
        ((s.world.content o).isTrampoline = false →
          Descends host v n (callPath .classWide 0 v this handler t o inv args) t
            (s.world.content u) this args s
            (invokeVirtual (execute host.logged n) v this name args s)) ∧
        ((s.world.content o).isTrampoline = true →
          (invokeVirtual (execute host.logged n) v this name args s).1 =
            .error (.stackOverflow (s.world.maxDepth v + 1)) ∧
          framesOf (invokeVirtual (execute host.logged n) v this name args s).2.host.2 =
            ((loopPath v this handler t inv args (s.world.maxDepth v + 1) 0).take
              (s.world.maxDepth v)).reverse ++ framesOf s.host.2) := by
  have hworld : s.world.Sound ∧ s.world.Titled := hs.titled hbodies s.at_present
  obtain ⟨hw, htitled⟩ := hworld
  have he := hs.exact hbodies hdefine
  have hidle := hs.idle hbodies
  have hdepth : s.thread.depth = 0 := by rw [hidle]
  have hd : s.thread.depth ≤ s.world.maxDepth v := by omega
  have hn' : s.world.maxDepth v ≤ s.thread.depth + n := by omega
  have hclass := hbound.live hw
  obtain ⟨-, hres, -⟩ := World.interceptionOf_eq_some.mp hbound.row
  obtain ⟨l, inv, hhandler⟩ := hbound.attended hw hfree hinvoke
  obtain ⟨m, u, o, hbehind⟩ := hw.behind htitled he hclass hbound.row hk ht htramp
  refine ⟨l, inv, m, u, o, hhandler.handled, hbehind.ends, hbehind.declared, hbehind.cell, ?_⟩
  rw [invokeVirtual_eq hk ht]
  cases hmode : (s.world.coreOf v).mode with
  | perCall =>
    have hclear : ∀ key ∈ s.thread.windows, key.receiver = this →
        ∀ j, s.world.EndsAt j key.trampoline u → m + 1 < j := fun key hkey => by
      rw [hidle] at hkey
      cases hkey
    have hchain := descends_chain args hbehind.ends hw he hmode hhandler hb hbehind.declared
      (.refl _) hclear hd hn'
    rw [hdepth] at hchain
    exact hchain
  | classWide =>
    have hcell := ((hw.tabled.current _ hclass).cells ht).2
    have hwrites : s.world.Writes v this r t o name k (s.world.content o) :=
      { mode := hmode
        receiver := hclass
        live := (hw.tabled.copied htramp).live hw.tabled
        cell := by rw [hcell]; exact hbehind.cell
        content := rfl
        slot := by rw [hcell]; exact ((hw.tabled.unpatched hres).cells hbehind.cell).2
        declared := ⟨_, hbehind.declared, by rw [hbehind.head]⟩ }
    refine ⟨fun hplain => ?_, fun hstacked => ?_⟩
    · have hwritten : Descends host v n
          (callPath .classWide s.thread.depth v this handler t o inv args) t (s.world.content u)
          this args s (execute host.logged n v t this args s) := by
        refine descends_written hw hhandler hb htramp hwrites hd hn'
          fun n' x hxdepth _ _ hcontent _ hxd hxn => ?_
        have hswapped : Descends host v n' [⟨x.thread.depth + 1, v, t, this, args⟩] t
            (s.world.content u) this args x (execute host.logged n' v t this args x) :=
          descends_swapped (hcontent.trans (hbehind.plain hplain)) hxd hxn
        rw [hxdepth] at hswapped
        exact hswapped
      rw [hdepth] at hwritten
      exact hwritten
    · have hloop := overflows_loop args hstacked hb hw hhandler htramp hwrites hd hn'
      rw [hdepth] at hloop
      exact hloop

/-! ### The demonstration -/

namespace Demo

/-- The instance of the class below is bound under the row of its own class. -/
theorem bound_stacked (mode : SwapMode) :
    (stacked mode).world.Bound ⟨0⟩ ⟨0⟩ 1 ⟨⟨4⟩, ⟨2⟩, 0, ⟨6⟩, ⟨5⟩⟩ ⟨1⟩ := by
  cases mode <;> constructor <;> decide +kernel

/-- The class above was patched as well, and the trampoline in the slot of the class below is
in front of another. -/
theorem layered_stacked (mode : SwapMode) : ∃ r t o, (stacked mode).world.Resolves ⟨0⟩ 0 r ∧
    r.cls ∈ (stacked mode).world.ancestors ⟨4⟩ ∧
    (stacked mode).world.methodAt ⟨4⟩ 0 = some t ∧
    ((stacked mode).world.content t).replaced? = some o ∧
    ((stacked mode).world.content o).isTrampoline = true := by
  refine ⟨⟨⟨3⟩, ⟨2⟩, 0, ⟨4⟩, ⟨3⟩⟩, ⟨3⟩, ⟨2⟩, ?_⟩
  cases mode <;> decide +kernel

/-- A call on it passes two trampolines per call, and overflows over the whole class. -/
theorem enters_stacked :
    (∃ inv m u, (stacked .perCall).world.EndsAt (m + 1) ⟨3⟩ u ∧
      Descends host ⟨0⟩ 32
        (chainPath (stacked .perCall).world ⟨0⟩ ⟨0⟩ ⟨1⟩ inv [] (m + 1) 0 ⟨3⟩) u
        ((stacked .perCall).world.content u) ⟨0⟩ [] (stacked .perCall)
        (invokeVirtual (execute host.logged 32) ⟨0⟩ ⟨0⟩ methodName [] (stacked .perCall))) ∧
    (invokeVirtual (execute host.logged 32) ⟨0⟩ ⟨0⟩ methodName [] (stacked .classWide)).1 =
      .error (.stackOverflow 33) := by
  have hkeeps : ∀ b v this args, (host.body b v this args).Uses
      fun op => op.KeepsClasses = true := uses_callMethod rfl
  have hfree : ∀ mode, ∀ a ∈ (stacked mode).world.lineage ⟨2⟩,
      (stacked mode).world.ownEntry ((stacked mode).world.coreOf ⟨0⟩).registry a = none := by
    intro mode
    cases mode <;> decide +kernel
  have hinvoke : ∀ mode, (stacked mode).world.handlerBody? ⟨2⟩ = some Body.invoke := by
    intro mode
    cases mode <;> decide +kernel
  have hslot : ∀ mode, (stacked mode).world.slotOf ((stacked mode).world.classOf ⟨0⟩)
      methodName = some 0 := by
    intro mode
    cases mode <;> decide +kernel
  have hcell : ∀ mode, (stacked mode).world.methodAt ((stacked mode).world.classOf ⟨0⟩) 0 =
      some ⟨3⟩ := by
    intro mode
    cases mode <;> decide +kernel
  have htramp : ∀ mode, ((stacked mode).world.content ⟨3⟩).isTrampoline = true := by
    intro mode
    cases mode <;> decide +kernel
  have hmode : ∀ mode, ((stacked mode).world.coreOf ⟨0⟩).mode = mode := by
    intro mode
    cases mode <;> decide +kernel
  have hlimit : ∀ mode, (stacked mode).world.maxDepth ⟨0⟩ = 32 := by
    intro mode
    cases mode <;> decide +kernel
  have hreplaced : ((stacked .classWide).world.tables.get ⟨5⟩).map
      (fun m => ((stacked .classWide).world.content m).isTrampoline) = [true] := by
    decide +kernel
  constructor
  · obtain ⟨l, inv, m, u, o, -, hends, -, -, h⟩ := Reached.calls_stacked uses_body
      (reached_stacked .perCall) (Or.inr hkeeps) (bound_stacked .perCall) (hfree _) (hinvoke _)
      callsThrough_invoke (hslot _) (hcell _) (htramp _) [] (Nat.le_of_eq (hlimit .perCall))
    rw [hmode] at h
    exact ⟨inv, m, u, hends, h⟩
  · obtain ⟨l, inv, m, u, o, -, -, -, ho, h⟩ := Reached.calls_stacked uses_body
      (reached_stacked .classWide) (Or.inr hkeeps) (bound_stacked .classWide) (hfree _)
      (hinvoke _) callsThrough_invoke (hslot _) (hcell _) (htramp _) []
      (Nat.le_of_eq (hlimit .classWide))
    rw [hmode] at h
    have hmem := List.mem_map_of_mem (f := fun m =>
      ((stacked .classWide).world.content m).isTrampoline) (List.mem_of_getElem? ho)
    rw [hreplaced, List.mem_singleton] at hmem
    have hend := (h.2 hmem).1
    rw [hlimit] at hend
    exact hend

/-- **Two rows are not one.**  Called from the top, with a handler that calls through and more
room than ten frames, the instance of the class below has its handler entered twice per call;
over the whole class the handler is entered over and over and the method is not run at all. -/
theorem entered_again :
    (host.CallsThrough Body.invoke ∧
      ∀ mode, Reached host (fun op => op.IsOrdinary = true) (stacked mode) ∧
        (stacked mode).world.Bound ⟨0⟩ ⟨0⟩ 1 ⟨⟨4⟩, ⟨2⟩, 0, ⟨6⟩, ⟨5⟩⟩ ⟨1⟩ ∧
        (∃ r t o, (stacked mode).world.Resolves ⟨0⟩ 0 r ∧
          r.cls ∈ (stacked mode).world.ancestors ⟨4⟩ ∧
          (stacked mode).world.methodAt ⟨4⟩ 0 = some t ∧
          ((stacked mode).world.content t).replaced? = some o ∧
          ((stacked mode).world.content o).isTrampoline = true) ∧
        (stacked mode).world.handlerBody? ⟨2⟩ = some Body.invoke ∧
        (stacked mode).host.1 = {} ∧ (stacked mode).world.maxDepth ⟨0⟩ = 32) ∧
    (invokeVirtual (execute host.logged 32) ⟨0⟩ ⟨0⟩ methodName [] (stacked .perCall)).2.host.1 =
      { handlerEntries := 2, methodRuns := 1 } ∧
    (invokeVirtual (execute host.logged 32) ⟨0⟩ ⟨0⟩ methodName [] (stacked .classWide)).1 =
      .error (.stackOverflow 33) ∧
    (invokeVirtual (execute host.logged 32) ⟨0⟩ ⟨0⟩ methodName [] (stacked .classWide)).2.host.1 =
      { handlerEntries := 16, methodRuns := 0 } := by
  -- Whether two values are the same is not decided, but it is not asked here.
  have hend : ((invokeVirtual (execute host.logged 32) ⟨0⟩ ⟨0⟩ methodName []
      (stacked .classWide)).1.map fun _ => ()) = .error (.stackOverflow 33) := by
    decide +kernel
  refine ⟨⟨callsThrough_invoke, fun mode => ?_⟩, by decide +kernel, Ending.map_eq_error.mp hend,
    by decide +kernel⟩
  refine ⟨reached_stacked mode, bound_stacked mode, layered_stacked mode, ?_⟩
  cases mode <;> decide +kernel

end Demo

end Interception
