/-
Every call cleans up after itself.

`Restored` is what the end of a call has in common with its beginning: the thread, the
windows open on each entry, the content of every cell that was there, and, up to the
table that patching gave it, the current table of every class that was there.  The
count of finished calls grows by the windows the call opened.

A class-wide window puts its class back to a table fixed at patching and not to the one
it found, so on its own "nothing changed" is not what a run keeps.  `Settles` carries what
is missing: a class made on the way stands at the end with the table patching gave it,
and no entry is filled in for a class that was there before.  With that, pieces of a run
compose, and windows may be nested, in the same class or in others, and may be left by a
value, an error or a panic.
-/
import Interception.Demo
import Interception.Proofs.Induction
import Interception.Proofs.Entries

namespace Interception

variable {β H : Type}

/-! ### Counting windows -/

/-- The entry a window counts on; a passthrough counts on none. -/
def Window.entry? : Window β → Option Nat
  | .passthrough => none
  | .perCall i _ => some i
  | .classWide i _ => some i

/-- The event opens a window on this entry. -/
def Moment.opensOn (g : RegistryRef) (i : Nat) (x : Moment β) : Bool :=
  match x.event with
  | .opened guard => guard.registry == g && guard.window.entry? == some i
  | _ => false

/-- How many windows were opened on an entry. -/
def windowsOn (g : RegistryRef) (i : Nat) (log : List (Moment β)) : Nat :=
  log.countP (Moment.opensOn g i)

theorem windowsOn_append (g : RegistryRef) (i : Nat) (new old : List (Moment β)) :
    windowsOn g i (new ++ old) = windowsOn g i new + windowsOn g i old :=
  List.countP_append

/-- What a call leaves as it found it. -/
structure Restored (t u : Trail β) : Prop where
  /-- Call depth and per-call windows. -/
  thread : u.thread = t.thread
  /-- As many windows are open on each entry, and those opened are counted as calls. -/
  counters : ∃ new, u.log = new ++ t.log ∧ ∀ g i, t.world.registries.Live g →
    (u.world.entry g i).openWindows = (t.world.entry g i).openWindows ∧
    (u.world.entry g i).calls = (t.world.entry g i).calls + windowsOn g i new
  contents : ∀ m, t.world.cells.Live m → u.world.content m = t.world.content m
  tables : ∀ c, t.world.classes.Live c →
    (u.world.classes.get c).table = (t.world.classes.get c).table ∨
    ∃ g i r, u.world.Resolves g i r ∧ r.cls = c ∧
      (u.world.classes.get c).table = r.intercepted

/-- What a piece of a run with every window closed again does. -/
structure Settles (t u : Trail β) : Prop extends Restored t u where
  grows : t.world.Grows u.world
  newly : ∀ {g i r}, u.world.Resolves g i r → t.world.classes.Live r.cls →
    t.world.Resolves g i r
  armed : ∀ {g i r}, u.world.Resolves g i r → ¬ t.world.classes.Live r.cls →
    (u.world.classes.get r.cls).table = r.intercepted

namespace Settles

theorem refl {t : Trail β} (ht : t.world.Orderly) : Settles t t where
  thread := rfl
  counters := ⟨[], rfl, fun _ _ _ => ⟨rfl, rfl⟩⟩
  contents _ _ := rfl
  tables _ _ := Or.inl rfl
  grows := .refl _
  newly hr _ := hr
  armed hr hc := absurd (ht.live hr) hc

theorem trans {t u x : Trail β} (hx : x.world.Orderly) (h : Settles t u) (h' : Settles u x) :
    Settles t x where
  thread := h'.thread.trans h.thread
  counters := by
    obtain ⟨new, hlog, hcount⟩ := h.counters
    obtain ⟨new', hlog', hcount'⟩ := h'.counters
    refine ⟨new' ++ new, by rw [hlog', hlog, List.append_assoc], fun g i hg => ?_⟩
    obtain ⟨hopen, hcalls⟩ := hcount g i hg
    obtain ⟨hopen', hcalls'⟩ := hcount' g i (h.grows.registries g hg).1
    rw [windowsOn_append]
    exact ⟨hopen'.trans hopen, by omega⟩
  contents m hm := (h'.contents m (h.grows.cells m hm)).trans (h.contents m hm)
  tables c hc := by
    rcases h'.tables c (h.grows.classes c hc).1 with hsame | hto
    · rcases h.tables c hc with hsame' | ⟨g, i, r, hr, hcls, htable⟩
      · exact Or.inl (hsame.trans hsame')
      · exact Or.inr ⟨g, i, r, h'.grows.resolved hr, hcls, hsame.trans htable⟩
    · exact Or.inr hto
  grows := h.grows.trans h'.grows
  newly hr hc := h.newly (h'.newly hr (h.grows.classes _ hc).1) hc
  armed {g i r} hr hc := by
    by_cases hu : u.world.classes.Live r.cls
    · -- Patched in the first piece; the second may only have put the same table back.
      have harmed := h.armed (h'.newly hr hu) hc
      rcases h'.tables r.cls hu with hsame | ⟨g', i', r', hr', hcls, htable⟩
      · exact hsame.trans harmed
      · obtain ⟨rfl, rfl⟩ := hx.once hr hr' hcls.symm
        rw [htable, hr.unique hr']
    · exact h'.armed hr hu

/-- Events that open no window and change neither the world nor the thread. -/
theorem note {t : Trail β} (ht : t.world.Orderly) {e : Event β} (he : e.IsQuiet) :
    Settles t (t.note e) :=
  { refl ht with
    counters := by
      refine ⟨[⟨e, t.world, t.thread⟩], rfl, fun g i _ => ⟨rfl, ?_⟩⟩
      cases e with
      | refused _ _ _ => rfl
      | performed _ => rfl
      | _ => cases he }

/-- What changes nothing that was there, and arms what it makes. -/
theorem of_extends {t : Trail β} {w : World β}
    (h : World.Extends t.world.classes.size t.world w)
    (harmed : ∀ {g i r}, w.Resolves g i r → ¬ t.world.classes.Live r.cls →
      (w.classes.get r.cls).table = r.intercepted) :
    Settles t { t with world := w } where
  thread := rfl
  counters := ⟨[], rfl, fun g i hg => h.counters g i hg⟩
  contents m hm := h.content hm
  tables c hc := Or.inl (congrArg Class.table (h.classes c hc hc))
  grows := h.grows
  newly hr hc := by
    rcases h.newly hr with hr | hn
    · exact hr
    · exact absurd hc (Nat.not_lt_of_le hn)
  armed := harmed

theorem of_onlyObjects {t : Trail β} (ht : t.world.Orderly) {w : World β}
    (h : t.world.OnlyObjects w) : Settles t { t with world := w } :=
  of_extends (h.toExtends _) fun {g i r} hr hc => by
    rw [World.Resolves, h.entry] at hr
    exact absurd (ht.live hr) hc

end Settles

/-! ### Patching leaves a class armed -/

namespace World

variable {w w' : World β}

/-- Every class that was patched has the table patching gave it. -/
def Armed (w : World β) : Prop :=
  ∀ g i r, w.Resolves g i r → (w.classes.get r.cls).table = r.intercepted

/-- A class that initialization fills in an entry for has the table made for it. -/
theorem table_initializeClass {v : VmRef} {c : ClassRef} (hc : w.classes.Live c)
    (hu : w.Unbound c) {g : RegistryRef} {i : Nat} {r : Resolution}
    (h : (w.initializeClass v c).Resolves g i r) (hr : r.cls = c) :
    ((w.initializeClass v c).classes.get c).table = r.intercepted := by
  have htable : ∀ (x : World β), x.classes.Live c →
      (({ x with classes := x.classes.modify c fun k => { k with initialized := true } } :
        World β).classes.get c).table = (x.classes.get c).table := fun x hx => by
    show ((x.classes.modify c _).get c).table = _
    rw [Store.get_modify_self hx]
  have hres : (w.patch v (w.coreOf v) c).2.Resolves g i r := h
  have hp := patches_patch w v (w.coreOf v) c
  unfold initializeClass
  simp only
  generalize (w.patch v (w.coreOf v) c).2 = x at hp hres ⊢
  cases hp with
  | nothing => exact absurd hr (hu g i r hres)
  | @installs j handler offset _ _ _ _ =>
    rcases resolves_installTrampolines hres with hres | ⟨-, -, rfl⟩
    · exact absurd hr (hu g i r hres)
    · have hlive : (w.installTrampolines (w.coreOf v).registry j c handler
          offset).classes.Live c := (Store.live_modify ..).mpr hc
      rw [htable _ hlive]
      exact congrArg Class.table (Store.get_modify_self hc _)

/-- Initializing a class changes no other. -/
theorem classes_initializeClass_of_ne (w : World β) (v : VmRef) {c a : ClassRef} (h : a ≠ c) :
    (w.initializeClass v c).classes.get a = w.classes.get a := by
  have hp := patches_patch w v (w.coreOf v) c
  unfold initializeClass
  simp only
  generalize (w.patch v (w.coreOf v) c).2 = x at hp ⊢
  rw [Store.get_modify_of_ne h]
  cases hp with
  | nothing => rfl
  | installs _ _ _ _ => exact Store.get_modify_of_ne h _

namespace Armed

theorem initializeClass (h : w.Armed) (v : VmRef) {c : ClassRef} (hc : w.classes.Live c)
    (hu : w.Unbound c) :
    (w.initializeClass v c).Armed := by
  intro g i r hr
  rcases resolves_initializeClass hr with hold | hnew
  · have hne : r.cls ≠ c := hu g i r hold
    rw [classes_initializeClass_of_ne w v hne]
    exact h g i r hold
  · rw [hnew.cls]
    exact table_initializeClass hc hu hr hnew.cls

theorem publish (h : w.Armed) (v : VmRef) (c : ClassRef) : (w.publish v c).Armed := h

theorem newRegistry (h : w.Armed) (rows : List Row) : (w.newRegistry rows).2.Armed :=
  fun g i r hr => h g i r (resolves_newRegistry hr)

theorem newVmAround (h : w.Armed) (ho : w.Orderly) (options : VmOptions) (core : Core) :
    (w.newVmAround options core).2.Armed := by
  refine newVmAround_induct ho options core ?_ (fun _ hc hu _ hx => hx.initializeClass _ hc hu)
    fun hx => hx.publish _ _
  intro g i r hr
  have hext := extends_bareMachine w.classes.size w options core
  rw [hext.classes _ (ho.live hr) (ho.live hr)]
  exact h g i r hr

end Armed

end World

/-! ### Defining a class -/

theorem Settles.define {t : Trail β} (ht : t.world.Orderly) {v : VmRef} {d : ClassDecl β}
    {c : ClassRef} {w : World β} (hd : t.world.define v d = .ok (c, w)) :
    Settles t { t with world := w } := by
  refine Settles.of_extends (World.extends_define hd) fun {g i r} hr hnew => ?_
  obtain ⟨-, rfl, s, -, rfl⟩ := World.define_eq_ok hd
  have hlive : (t.world.link d (t.world.vms.get v).classes.next (some s)).2.classes.Live
      t.world.classes.next := Store.live_next_add _ _
  rcases World.resolves_initializeClass hr with hold | hfilled
  · exact absurd (ht.live hold) hnew
  · rw [hfilled.cls]
    exact World.table_initializeClass hlive ht.unbound_next hr hfilled.cls

/-! ### Frames -/

theorem log_between {x y : Moment β} {log new old : List (Moment β)}
    (h : log = new ++ y :: old) : x :: log = (x :: (new ++ [y])) ++ old := by
  rw [h, List.cons_append, List.append_assoc]
  rfl

/-- Writing down something else in front of and behind a piece of a run counts nothing. -/
theorem windowsOn_between {g : RegistryRef} {i : Nat} {x y : Moment β}
    (hx : x.opensOn g i = false) (new : List (Moment β)) :
    windowsOn g i (x :: (new ++ [y])) = windowsOn g i new + windowsOn g i [y] := by
  rw [windowsOn, List.countP_cons_of_neg (by simp [hx]), ← windowsOn, windowsOn_append]

theorem Settles.frame {t u : Trail β} {v : VmRef} {m : CellRef} {this : ObjectRef}
    {args : List Value} (h : Settles (t.enter v m this args) u) :
    Settles t (u.leave v m this) where
  thread := by
    show ({ u.thread with depth := u.thread.depth - 1 } : Thread) = t.thread
    rw [h.thread]
    rfl
  counters := by
    obtain ⟨new, hlog, hcount⟩ := h.counters
    refine ⟨_, log_between hlog, fun g i hg => ?_⟩
    rw [windowsOn_between rfl]
    exact hcount g i hg
  contents := h.contents
  tables := h.tables
  grows := h.grows
  newly := h.newly
  armed := h.armed

/-! ### Windows -/

/-- A window counts once on its entry, and on no other. -/
theorem windowsOn_opened (g : RegistryRef) (i : Nat) (guard : Guard β) (w : World β)
    (th : Thread) : windowsOn g i [⟨.opened guard, w, th⟩] =
      if guard.registry = g ∧ guard.window.entry? = some i then 1 else 0 := by
  simp [windowsOn, Moment.opensOn]

/-- What is missing to a window once the two sides are known to agree: no class made
inside it is touched by closing it. -/
theorem Settles.of_restored {t b u e : Trail β} (hrest : Restored t e)
    (hopen : t.world.Shifts b.world) (h : Settles b u) (hclose : u.world.Shifts e.world)
    (hkept : ∀ c, ¬ t.world.classes.Live c → e.world.classes.get c = u.world.classes.get c) :
    Settles t e :=
  { hrest with
    grows := (hopen.grows.trans h.grows).trans hclose.grows
    newly := fun hr hc =>
      hopen.resolves.mp (h.newly (hclose.resolves.mp hr) ((hopen.liveClasses _).mpr hc))
    armed := fun hr hc => by
      rw [hkept _ hc]
      exact h.armed (hclose.resolves.mp hr) fun hb => hc ((hopen.liveClasses _).mp hb) }

section Windows

variable {t u : Trail β} {v : VmRef} {core : Core} {this : ObjectRef} {m : CellRef}
  {i : Nat} {r : Resolution}

/-- Whatever a window does to the rest of the world, its entry has as many open windows
afterwards as before, and one call more. -/
theorem Settles.counters_window {w₁ : World β} {th₁ : Thread} {guard : Guard β}
    (h : Settles ((⟨w₁, th₁, t.log⟩ : Trail β).note (.opened guard)) u) (w₂ : World β)
    (th₂ : Thread) {g : RegistryRef} (hr : t.world.Resolves g i r) (hg : guard.registry = g)
    (hi : guard.window.entry? = some i)
    (hopen : ∀ a j, w₁.entry a j = (t.world.modifyEntry g i Entry.windowOpened).entry a j)
    (hlive : ∀ a, t.world.registries.Live a → w₁.registries.Live a)
    (hclose : ∀ a j, w₂.entry a j = (u.world.modifyEntry g i Entry.windowClosed).entry a j) :
    ∃ new, (⟨.closed guard, w₂, th₂⟩ : Moment β) :: u.log = new ++ t.log ∧
      ∀ a j, t.world.registries.Live a →
        (w₂.entry a j).openWindows = (t.world.entry a j).openWindows ∧
        (w₂.entry a j).calls = (t.world.entry a j).calls + windowsOn a j new := by
  obtain ⟨new, hlog, hcount⟩ := h.counters
  refine ⟨_, log_between hlog, fun a j ha => ?_⟩
  obtain ⟨hopened, hcalls⟩ := hcount a j (hlive a ha)
  have hopened' : (u.world.entry a j).openWindows = (w₁.entry a j).openWindows := hopened
  have hcalls' : (u.world.entry a j).calls = (w₁.entry a j).calls + windowsOn a j new := hcalls
  have hru : u.world.Resolves g i r := by
    refine h.grows.resolved ?_
    show w₁.Resolves g i r
    rw [World.Resolves, hopen]
    exact (World.shifts_windowOpened t.world g i).resolves.mpr hr
  rw [hopen, (hr.windowOpened a j).1] at hopened'
  rw [hopen, (hr.windowOpened a j).2] at hcalls'
  rw [hclose, (hru.windowClosed a j).1, (hru.windowClosed a j).2, windowsOn_between rfl,
    windowsOn_opened]
  simp only [hg, hi, Option.some.injEq]
  omega

/-- A passthrough window is two notes. -/
theorem Settles.passthrough {guard : Guard β} (hg : guard.window = .passthrough)
    (h : Settles (t.note (.opened guard)) u) : Settles t (u.finish guard) := by
  have hsame : u.world.closeWindow u.thread guard = (u.world, u.thread) := by
    obtain ⟨g, m, o, window⟩ := guard
    cases hg
    rfl
  have hworld : (u.finish guard).world = u.world := congrArg Prod.fst hsame
  have hthread : (u.finish guard).thread = u.thread := congrArg Prod.snd hsame
  obtain ⟨new, hlog, hcount⟩ := h.counters
  have hnone : ∀ g i, windowsOn g i [⟨.opened guard, t.world, t.thread⟩] = 0 := fun g i => by
    rw [windowsOn_opened, if_neg]
    rintro ⟨-, hi⟩
    rw [hg] at hi
    cases hi
  refine Settles.of_restored (b := t.note (.opened guard)) ?_ (.refl _) h ?_ ?_
  · exact
      { thread := hthread.trans h.thread
        counters := ⟨_, log_between hlog, fun g i hlive => by
          rw [windowsOn_between rfl, hnone, hworld]
          exact hcount g i hlive⟩
        contents := fun c hc => by
          rw [hworld]
          exact h.contents c hc
        tables := fun c hc => by
          rw [hworld]
          exact h.tables c hc }
  · rw [hworld]
    exact .refl _
  · exact fun c _ => by rw [hworld]

/-- A per-call window changes its entry and notes its key on the thread. -/
theorem Settles.perCall {g : RegistryRef} (hr : t.world.Resolves g i r) {th : Thread}
    (hth : th = { t.thread with windows := ⟨m, this⟩ :: t.thread.windows })
    {guard : Guard β} (hg : guard = ⟨g, m, this, .perCall i ⟨m, this⟩⟩)
    (h : Settles ((⟨t.world.modifyEntry g i Entry.windowOpened, th, t.log⟩ : Trail β).note
      (.opened guard)) u) : Settles t (u.finish guard) := by
  have hclose : u.world.closeWindow u.thread guard =
      (u.world.modifyEntry g i Entry.windowClosed,
        { u.thread with windows := u.thread.windows.erase ⟨m, this⟩ }) := by
    rw [hg, World.closeWindow_perCall]
  have hfinish : u.finish guard = (⟨u.world.modifyEntry g i Entry.windowClosed,
      { u.thread with windows := u.thread.windows.erase ⟨m, this⟩ }, u.log⟩ : Trail β).note
        (.closed guard) := by
    rw [Trail.finish, hclose]
  have hopens := World.shifts_windowOpened t.world g i
  have hcloses := World.shifts_windowClosed u.world g i
  have hcounters := h.counters_window (u.world.modifyEntry g i Entry.windowClosed)
    { u.thread with windows := u.thread.windows.erase ⟨m, this⟩ } hr (by rw [hg])
    (by rw [hg]; rfl) (fun _ _ => rfl) (fun a ha => (hopens.registries a).1.mpr ha)
    fun _ _ => rfl
  have hrestored : Restored t (u.finish guard) := by
    rw [hfinish]
    refine
      { thread := ?_
        counters := hcounters
        contents := fun c hc => h.contents c ((hopens.cells c).mpr hc)
        tables := fun c hc => ?_ }
    · have hthread : u.thread = th := h.thread
      show ({ u.thread with windows := u.thread.windows.erase ⟨m, this⟩ } : Thread) = t.thread
      rw [hthread, hth, List.erase_cons_head]
    · rcases h.tables c ((hopens.liveClasses c).mpr hc) with hsame | ⟨a, j, r', hr', hcls, htable⟩
      · exact Or.inl hsame
      · exact Or.inr ⟨a, j, r', hcloses.resolves.mpr hr', hcls, htable⟩
  have hclosed : (u.finish guard).world = u.world.modifyEntry g i Entry.windowClosed := by
    rw [hfinish]
    rfl
  refine Settles.of_restored hrestored (b := (⟨t.world.modifyEntry g i Entry.windowOpened, th,
    t.log⟩ : Trail β).note (.opened guard)) hopens h ?_ fun c _ => ?_
  · rw [hclosed]
    exact hcloses
  · rw [hclosed]
    rfl

/-- A cell that is inside the window what opening it made of it holds afterwards what it held
before. -/
theorem World.content_rearm_disarm {w w' : World β} {c : CellRef} (hc : w'.cells.Live c)
    (h : w'.content c = (w.disarm r m).content c) :
    (w'.rearm r m (w.content m)).content c = w.content c := by
  by_cases hcm : c = m
  · subst hcm
    exact World.content_rearm_self hc _ _
  · rw [World.content_rearm_of_ne hcm, h, World.content_disarm_of_ne hcm]

/-- A class-wide window changes its entry, its class and its trampoline. -/
theorem Settles.classWide (ht : t.world.Orderly) {g : RegistryRef}
    (hr : t.world.Resolves g i r) {guard : Guard β}
    (hg : guard = ⟨g, m, this, .classWide i (t.world.content m)⟩)
    (h : Settles ((⟨(t.world.disarm r m).modifyEntry g i Entry.windowOpened, t.thread,
      t.log⟩ : Trail β).note (.opened guard)) u) : Settles t (u.finish guard) := by
  have hopens := (World.shifts_disarm t.world r m).trans
    (World.shifts_windowOpened (t.world.disarm r m) g i)
  have hcloses := (World.shifts_rearm u.world r m (t.world.content m)).trans
    (World.shifts_windowClosed (u.world.rearm r m (t.world.content m)) g i)
  have hru : u.world.Resolves g i r := h.grows.resolved (hopens.resolves.mpr hr)
  have hfinish : u.finish guard = (⟨(u.world.rearm r m (t.world.content m)).modifyEntry g i
      Entry.windowClosed, u.thread, u.log⟩ : Trail β).note (.closed guard) := by
    rw [Trail.finish, hg, World.closeWindow_classWide _ _ _ _ _ _ hru]
  have hopened : ∀ a j, ((t.world.disarm r m).modifyEntry g i Entry.windowOpened).entry a j =
      (t.world.modifyEntry g i Entry.windowOpened).entry a j := fun a j => by
    rw [World.entry, World.modifyEntry, World.registries_disarm]
    rfl
  have hcounters := h.counters_window ((u.world.rearm r m (t.world.content m)).modifyEntry g i
    Entry.windowClosed) u.thread hr (by rw [hg]) (by rw [hg]; rfl) hopened
    (fun a ha => (hopens.registries a).1.mpr ha) fun _ _ => rfl
  have hlive : u.world.classes.Live r.cls :=
    (h.grows.classes _ ((hopens.liveClasses _).mpr (ht.live hr))).1
  have hrestored : Restored t (u.finish guard) := by
    rw [hfinish]
    refine
      { thread := h.thread
        counters := hcounters
        contents := fun c hc => ?_
        tables := fun c hc => ?_ }
    · have hcu : u.world.cells.Live c := h.grows.cells c ((hopens.cells c).mpr hc)
      exact World.content_rearm_disarm hcu (h.contents c ((hopens.cells c).mpr hc))
    · by_cases hcr : c = r.cls
      · subst hcr
        exact Or.inr ⟨g, i, r, hcloses.resolves.mpr hru, rfl,
          World.table_rearm_self hlive m (t.world.content m)⟩
      · have hkept : (u.world.rearm r m (t.world.content m)).classes.get c =
            u.world.classes.get c := World.table_rearm_of_ne hcr m _
        rcases h.tables c ((hopens.liveClasses c).mpr hc) with
          hsame | ⟨a, j, r', hr', hcls, htable⟩
        · refine Or.inl (((congrArg Class.table hkept).trans hsame).trans ?_)
          exact congrArg Class.table (World.table_disarm_of_ne hcr m)
        · exact Or.inr ⟨a, j, r', hcloses.resolves.mpr hr', hcls,
            (congrArg Class.table hkept).trans htable⟩
  have hclosed : (u.finish guard).world =
      (u.world.rearm r m (t.world.content m)).modifyEntry g i Entry.windowClosed := by
    rw [hfinish]
    rfl
  refine Settles.of_restored hrestored (b := (⟨(t.world.disarm r m).modifyEntry g i
    Entry.windowOpened, t.thread, t.log⟩ : Trail β).note (.opened guard)) hopens h ?_
    fun c hc => ?_
  · rw [hclosed]
    exact hcloses
  · rw [hclosed]
    have hcr : c ≠ r.cls := by
      rintro rfl
      exact hc (ht.live hr)
    exact World.table_rearm_of_ne hcr m (t.world.content m)

theorem Settles.window (ht : t.world.Orderly)
    (h : Settles (t.begin v core this m) u) :
    Settles t (u.finish (t.guardFor v core this m)) := by
  have hopens := World.opens_openWindow t.world t.thread v core this m
  have hbegin : t.begin v core this m =
      (⟨(t.world.openWindow t.thread v core this m).2.1,
        (t.world.openWindow t.thread v core this m).2.2, t.log⟩ : Trail β).note
          (.opened (t.world.openWindow t.thread v core this m).1) := rfl
  have hguard : t.guardFor v core this m = (t.world.openWindow t.thread v core this m).1 := rfl
  rw [hbegin] at h
  rw [hguard]
  generalize t.world.openWindow t.thread v core this m = x at hopens h ⊢
  cases hopens with
  | passthrough _ => exact Settles.passthrough rfl h
  | perCall _ hi _ =>
    exact Settles.perCall (World.interceptionOf_eq_some.mp hi).2.1 rfl rfl h
  | classWide _ hi _ =>
    exact Settles.classWide ht (World.interceptionOf_eq_some.mp hi).2.1 rfl h

end Windows

/-! ### Every run -/

theorem Trail.grows_begin (t : Trail β) (v : VmRef) (core : Core) (this : ObjectRef)
    (m : CellRef) : t.world.Grows (t.begin v core this m).world :=
  (World.shifts_openWindow t.world t.thread v core this m).grows

theorem Trail.grows_finish (t : Trail β) (g : Guard β) : t.world.Grows (t.finish g).world :=
  (World.shifts_closeWindow t.world t.thread g).grows

theorem orderly_begin {t : Trail β} (ht : t.world.Orderly) (v : VmRef) (core : Core)
    (this : ObjectRef) (m : CellRef) : (t.begin v core this m).world.Orderly :=
  ht.of_shifts (World.shifts_openWindow t.world t.thread v core this m)

theorem orderly_finish {t : Trail β} (ht : t.world.Orderly) (g : Guard β) :
    (t.finish g).world.Orderly :=
  ht.of_shifts (World.shifts_closeWindow t.world t.thread g)

/-- Every ordinary run settles what it does, whatever cells it reaches. -/
theorem kept_settles : Kept (β := β) (fun op => op.IsOrdinary = true) (fun _ _ _ _ => True)
    (fun t => t.world.Orderly) Settles where
  ordinary h := h
  refl ht := .refl ht
  trans _ hx h h' := h.trans hx h'
  note he ht := ⟨ht, .note ht he⟩
  define _ ht hd := ⟨ht.define hd, .define ht hd⟩
  allocate _ ht :=
    ⟨ht.of_onlyObjects (World.onlyObjects_allocate _ _ _),
      .of_onlyObjects ht (World.onlyObjects_allocate _ _ _)⟩
  setField _ ht hf :=
    ⟨ht.of_onlyObjects (World.onlyObjects_setField hf),
      .of_onlyObjects ht (World.onlyObjects_setField hf)⟩
  frame _ ht _ _ := ⟨ht, fun _ hu h => ⟨hu, h.frame⟩⟩
  window ht _ _ _ _ _ :=
    ⟨orderly_begin ht _ _ _ _, fun _ hu h => ⟨orderly_finish hu _, h.window ht⟩⟩
  slot _ _ := trivial
  direct _ _ _ := trivial
  method _ _ _ _ := trivial
  execute _ _ := trivial
  replaced _ _ _ _ := trivial

theorem Settles.armed_of_armed {t u : Trail β} (h : Settles t u) (hu : u.world.Orderly)
    (ht : t.world.Armed) : u.world.Armed := by
  intro g i r hr
  by_cases hc : t.world.classes.Live r.cls
  · rcases h.tables r.cls hc with hsame | ⟨g', i', r', hr', hcls, htable⟩
    · rw [hsame]
      exact ht g i r (h.newly hr hc)
    · obtain ⟨rfl, rfl⟩ := hu.once hr hr' hcls.symm
      rw [htable, hr.unique hr']
  · exact h.armed hr hc

section Reached

variable {host : Host β H} {s : State β (Logged β H)}

/-- At every moment of a run of ordinary bodies the entries are in order. -/
theorem Reached.orderly
    (hb : ∀ b v this args, (host.body b v this args).Uses fun op => op.IsOrdinary = true)
    (hs : Reached host (fun op => op.IsOrdinary = true) s) {w : World β} {th : Thread}
    (hat : s.trail.At w th) : w.Orderly :=
  Reached.everywhere (P := fun w _ => w.Orderly) kept_settles hb .empty
    (fun _ _ rows hw => hw.newRegistry rows)
    (fun _ _ options core _ hw => hw.newVmAround options core) hs hat

/-- Between runs every class that was patched has its intercepted table. -/
theorem Reached.armed
    (hb : ∀ b v this args, (host.body b v this args).Uses fun op => op.IsOrdinary = true)
    (hs : Reached host (fun op => op.IsOrdinary = true) s) : s.world.Armed := by
  have horderly : ∀ {s}, Reached host (fun op => op.IsOrdinary = true) s → s.world.Orderly :=
    fun hs => hs.orderly hb (State.at_present _)
  induction hs with
  | start h => exact fun g i r hr => absurd hr.live (Nat.not_lt_zero _)
  | registry _ rows ih => exact ih.newRegistry rows
  | machine hs options core _ ih => exact ih.newVmAround (horderly hs) options core
  | @run s hs _ p hp ih =>
    have h := kept_settles.run host (kept_settles.runs_execute hb s.room) p hp s (horderly hs)
    exact h.rel.armed_of_armed h.inv ih

/-- **Every call cleans up after itself.**  At whatever moment of a run of ordinary bodies
it is asked for, with whatever room, and however it ends, an ordinary operation restores
what it found; and if every patched class had its intercepted table before, it has it
after, which is so between two runs. -/
theorem Reached.restores
    (hb : ∀ b v this args, (host.body b v this args).Uses fun op => op.IsOrdinary = true)
    (hs : Reached host (fun op => op.IsOrdinary = true) s) :
    s.world.Armed ∧
    ∀ w th, s.trail.At w th → ∀ (o : Op β), o.IsOrdinary = true → ∀ (n : Nat) (h : H) log,
      Restored ⟨w, th, log⟩
        (o.run host.logged (execute host.logged n) ⟨w, th, (h, log)⟩).2.trail ∧
      (w.Armed →
        (o.run host.logged (execute host.logged n) ⟨w, th, (h, log)⟩).2.world.Armed) := by
  refine ⟨hs.armed hb, fun w th hat o ho n h log => ?_⟩
  have hlead := kept_settles.op host (kept_settles.runs_execute hb n) ho ⟨w, th, (h, log)⟩
    (hs.orderly hb hat)
  exact ⟨hlead.rel.toRestored, hlead.rel.armed_of_armed hlead.inv⟩

end Reached

/-! ### The demonstration -/

namespace Demo

/-- All that the demonstration's bodies ask for is to call a method. -/
theorem uses_callMethod {allowed : Op Body → Prop}
    (h : ∀ {v caller m this args}, allowed (.callMethod v caller m this args)) (b : Body)
    (v : VmRef) (this : ObjectRef) (args : List Value) :
    (host.body b v this args).Uses allowed := by
  cases b with
  | onResume => exact fun _ _ => trivial
  | invoke =>
    intro w t
    dsimp only
    split
    · trivial
    · split
      · trivial
      · exact .perform h

/-- Both are ordinary. -/
theorem uses_body : ∀ b v this args, (host.body b v this args).Uses
    fun op => op.IsOrdinary = true :=
  uses_callMethod rfl

/-- Define both classes, allocate an activity and call it. -/
def opening (v : VmRef) : Program Body Tally Value := do
  let _ ← Program.perform (.define v handlerDecl)
  let c ← Program.perform (.define v activityDecl)
  let o ← Program.perform (.allocate v c)
  Program.perform (.callVirtual v o methodName [])

theorem uses_opening {allowed : Op Body → Prop} (hdefine : ∀ {v d}, allowed (.define v d))
    (hallocate : ∀ {v c}, allowed (.allocate v c))
    (hcall : ∀ {v this name args}, allowed (.callVirtual v this name args)) (v : VmRef) :
    (opening v).Uses allowed := by
  refine .bind (.perform hdefine) fun _ => .bind (.perform hdefine) fun c => ?_
  exact .bind (.perform hallocate) fun o => .perform hcall

/-- The state after that, on a machine set up for it. -/
def opened (mode : SwapMode) : State Body (Logged Body Tally) :=
  ((opening ⟨0⟩).lift.start host.logged
    ⟨(World.newVm {} { mode, maxDepth }).2, {}, ({}, [])⟩).2

theorem reached_opened (mode : SwapMode) :
    Reached host (fun op => op.IsOrdinary = true) (opened mode) := by
  have hmachine : Reached host (fun op => op.IsOrdinary = true) _ :=
    .newVm ({} : Tally) { mode, maxDepth }
  exact hmachine.run (opening ⟨0⟩) (uses_opening rfl rfl rfl ⟨0⟩)

/-- The activity called once more, in class-wide mode. -/
def again : State Body (Logged Body Tally) :=
  (Op.run host.logged (execute host.logged maxDepth) (.callVirtual ⟨0⟩ ⟨0⟩ methodName [])
    (opened .classWide)).2

/-- A second call opens one window more and leaves the activity armed. -/
theorem restored_again :
    Restored (opened .classWide).trail again.trail ∧ again.world.Armed ∧
      windowsOn ⟨0⟩ 0 (opened .classWide).host.2 = 1 ∧ windowsOn ⟨0⟩ 0 again.host.2 = 2 := by
  obtain ⟨harmed, hcalls⟩ := Reached.restores uses_body (reached_opened .classWide)
  obtain ⟨hrestored, hafter⟩ := hcalls _ _ (opened .classWide).at_present
    (.callVirtual ⟨0⟩ ⟨0⟩ methodName []) rfl maxDepth (opened .classWide).host.1
    (opened .classWide).host.2
  exact ⟨hrestored, hafter harmed, by decide +kernel, by decide +kernel⟩

end Demo

end Interception
