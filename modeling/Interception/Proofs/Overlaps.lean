/-
Class-wide windows that overlap.

All class-wide windows on a trampoline swap the same two things: the table its class has, and what
the trampoline holds.  Opening one remembers what the trampoline holds, whatever that is by then;
closing it writes that back, whatever has become of the trampoline meanwhile.  So of windows that
overlap only the first remembers the trampoline.  Those opened while it is swapped out remember
the original, and the last to be closed leaves what it remembers.

Hence the trampoline is in place in the end just if the guard opened first is the one closed last.
The table is less delicate: each guard that is closed installs the intercepted one, also where
other windows are still open.
-/
import Mathlib.Data.List.Induction
import Interception.Proofs.ByHand
import Interception.Proofs.CallThrough
import Interception.Proofs.Rebuilding

namespace Interception

variable {β H : Type}

namespace World

variable {w w' w'' : World β} {g : RegistryRef} {i k : Nat} {r : Resolution} {t o : CellRef}

/-! ### Two cells and what is swapped between them -/

/-- A trampoline of a patched class, and the cell that the table from before patching has in its
slot. -/
structure Paired (w : World β) (g : RegistryRef) (i : Nat) (r : Resolution) (t o : CellRef) :
    Prop where
  resolves : w.Resolves g i r
  live : w.classes.Live r.cls
  cell : w.cells.Live t
  apart : o ≠ t
  original : (w.tables.get r.unpatched)[(w.content o).slot]? = some o
  slot : (w.content t).slot = (w.content o).slot

theorem CopyAt.paired {c : ClassRef} (h : w.CopyAt c k t o g i r) (hw : w.Sound) :
    w.Paired g i r t o := by
  obtain ⟨hcell, hslot⟩ := (hw.tabled.intercepted h.resolves).cells h.copy
  obtain ⟨-, hslot'⟩ := (hw.tabled.unpatched h.resolves).cells h.original
  exact
    { resolves := h.resolves
      live := hw.orderly.live h.resolves
      cell := hcell
      apart := by
        rintro rfl
        exact hw.tabled.apart h.resolves (List.mem_of_getElem? h.original)
          (List.mem_of_getElem? h.copy)
      original := by
        rw [hslot']
        exact h.original
      slot := hslot.trans hslot'.symm }

/-- The world once a class-wide window is open. -/
def unswap (w : World β) (g : RegistryRef) (i : Nat) (r : Resolution) (t : CellRef) : World β :=
  (w.disarm r t).modifyEntry g i Entry.windowOpened

/-- The world once a window is closed that remembers what the trampoline held. -/
def swapBack (w : World β) (g : RegistryRef) (i : Nat) (r : Resolution) (t : CellRef)
    (token : Descriptor β) : World β :=
  (w.rearm r t token).modifyEntry g i Entry.windowClosed

/-- What windows on the trampoline, so many opened and so many closed, do to all but the trampoline
and the table of its class. -/
structure Overlaps (w w' : World β) (g : RegistryRef) (i : Nat) (t : CellRef)
    (opened closed : Nat) : Prop where
  shifts : w.Shifts w'
  contents : ∀ c, c ≠ t → w'.content c = w.content c
  openWindows : (w'.entry g i).openWindows + closed = (w.entry g i).openWindows + opened
  calls : (w'.entry g i).calls = (w.entry g i).calls + closed

namespace Overlaps

variable {a b a' b' : Nat}

theorem refl (w : World β) (g : RegistryRef) (i : Nat) (t : CellRef) : Overlaps w w g i t 0 0 where
  shifts := .refl w
  contents _ _ := rfl
  openWindows := rfl
  calls := rfl

theorem trans (h : Overlaps w w' g i t a b) (h' : Overlaps w' w'' g i t a' b') :
    Overlaps w w'' g i t (a + a') (b + b') where
  shifts := h.shifts.trans h'.shifts
  contents c hc := (h'.contents c hc).trans (h.contents c hc)
  openWindows := by
    have hfirst := h.openWindows
    have hthen := h'.openWindows
    omega
  calls := by rw [h'.calls, h.calls, Nat.add_assoc]

end Overlaps

namespace Paired

variable {a b : Nat}

/-- Windows leave the pair in place, if what the trampoline holds has the slot. -/
theorem of_overlaps (h : w.Paired g i r t o) (hx : Overlaps w w' g i t a b)
    (hslot : (w'.content t).slot = (w.content o).slot) : w'.Paired g i r t o where
  resolves := hx.shifts.resolves.mpr h.resolves
  live := (hx.shifts.liveClasses _).mpr h.live
  cell := (hx.shifts.cells t).mpr h.cell
  apart := h.apart
  original := by
    rw [hx.shifts.tables, hx.contents o h.apart]
    exact h.original
  slot := by rw [hslot, hx.contents o h.apart]

theorem content_unswap (h : w.Paired g i r t o) :
    (w.unswap g i r t).content t = w.content o :=
  content_disarm_self h.cell (by rw [h.slot]; exact h.original)

theorem overlaps_unswap (h : w.Paired g i r t o) :
    Overlaps w (w.unswap g i r t) g i t 1 0 := by
  have hdisarm := shifts_disarm w r t
  obtain ⟨hopened, hcalls⟩ := (hdisarm.resolves.mpr h.resolves).windowOpened g i
  have hsame : (w.disarm r t).entry g i = w.entry g i := by
    rw [entry, registries_disarm, entry]
  rw [hsame, if_pos ⟨rfl, rfl⟩] at hopened
  rw [hsame] at hcalls
  exact
    { shifts := hdisarm.trans (shifts_windowOpened (w.disarm r t) g i)
      contents := fun c hc => content_disarm_of_ne hc
      openWindows := by
        rw [Nat.add_zero]
        exact hopened
      calls := by
        rw [Nat.add_zero]
        exact hcalls }

theorem unswap (h : w.Paired g i r t o) : (w.unswap g i r t).Paired g i r t o :=
  h.of_overlaps h.overlaps_unswap (by rw [h.content_unswap])

theorem content_swapBack (h : w.Paired g i r t o) (token : Descriptor β) :
    (w.swapBack g i r t token).content t = token :=
  content_rearm_self h.cell r token

theorem table_swapBack (h : w.Paired g i r t o) (token : Descriptor β) :
    ((w.swapBack g i r t token).classes.get r.cls).table = r.intercepted :=
  table_rearm_self h.live t token

/-- A counter is only taken down where a window is open. -/
theorem overlaps_swapBack (h : w.Paired g i r t o) (token : Descriptor β)
    (hopen : 0 < (w.entry g i).openWindows) :
    Overlaps w (w.swapBack g i r t token) g i t 0 1 := by
  have hrearm := shifts_rearm w r t token
  obtain ⟨hopened, hcalls⟩ := (hrearm.resolves.mpr h.resolves).windowClosed g i
  have hsame : (w.rearm r t token).entry g i = w.entry g i := rfl
  rw [hsame, if_pos ⟨rfl, rfl⟩] at hopened hcalls
  exact
    { shifts := hrearm.trans (shifts_windowClosed (w.rearm r t token) g i)
      contents := fun c hc => content_rearm_of_ne hc token
      openWindows := by
        have hclosed : ((w.swapBack g i r t token).entry g i).openWindows =
            (w.entry g i).openWindows - 1 := hopened
        omega
      calls := hcalls }

end Paired

end World

/-! ### Guards opened in turn, and closed in any order -/

/-- Who enters, and on what. -/
structure Entrance where
  thread : Thread
  machine : VmRef
  receiver : ObjectRef

/-- The receiver is an instance of the entry's class or of one below it, has no nearer row, and is
no proxy. -/
structure Entrance.Meets (e : Entrance) (w : World β) (g : RegistryRef) (i : Nat)
    (r : Resolution) : Prop where
  ordinary : w.isProxyInstance e.machine e.receiver = false
  below : r.cls ∈ w.lineage (w.classOf e.receiver)
  nearest : w.nearestEntry g (w.classOf e.receiver) = some i

namespace Entrance.Meets

variable {e : Entrance} {w w' : World β} {g : RegistryRef} {i : Nat} {r : Resolution}

theorem shifts (he : e.Meets w g i r) (hs : w.Shifts w') : e.Meets w' g i r := by
  have hclass : w'.classOf e.receiver = w.classOf e.receiver := by
    rw [World.classOf, hs.objects, World.classOf]
  exact
    { ordinary := (hs.isProxyInstance _ _).trans he.ordinary
      below := by
        rw [hclass, hs.sameClasses.lineage]
        exact he.below
      nearest := by
        rw [hclass, hs.nearestEntry]
        exact he.nearest }

/-- The window opened on the receiver is none that changes nothing. -/
theorem opens (he : e.Meets w g i r) (hr : w.Resolves g i r) (t : CellRef) :
    w.openWindow e.thread e.machine ⟨g, .classWide⟩ e.receiver t =
      (⟨g, t, e.receiver, .classWide i (w.content t)⟩, w.unswap g i r t, e.thread) := by
  have hrow : w.interceptionOf g (w.classOf e.receiver) = some (i, r) :=
    World.interceptionOf_eq_some.mpr ⟨he.nearest, hr, he.below⟩
  have hmode : (⟨g, .classWide⟩ : Core).mode = .classWide := rfl
  exact World.openWindow_classWide he.ordinary hrow hmode e.thread t

end Entrance.Meets

/-- The guard of a class-wide window on a trampoline that held this. -/
structure Guard.Keeps (x : Guard β) (g : RegistryRef) (i : Nat) (t : CellRef)
    (token : Descriptor β) : Prop where
  registry : x.registry = g
  trampoline : x.trampoline = t
  window : x.window = .classWide i token

/-- Closing it writes back what it remembers. -/
theorem Guard.Keeps.closes {x : Guard β} {w : World β} {g : RegistryRef} {i : Nat}
    {r : Resolution} {t : CellRef} {token : Descriptor β} (hx : x.Keeps g i t token)
    (hr : w.Resolves g i r) (th : Thread) :
    w.closeWindow th x = (w.swapBack g i r t token, th) := by
  obtain ⟨registry, trampoline, receiver, window⟩ := x
  obtain ⟨rfl, rfl, rfl⟩ := hx
  exact World.closeWindow_classWide w th _ _ receiver token hr

namespace World

variable {w w' : World β} {g : RegistryRef} {i j k : Nat} {r : Resolution} {t o : CellRef}
  {e : Entrance} {es : List Entrance} {order : List Nat}

/-- Open a class-wide window on the trampoline for each entrance in turn.  The guards are in the
order they were opened in, each with the thread it is on. -/
def openAll (w : World β) (g : RegistryRef) (t : CellRef) :
    List Entrance → List (Thread × Guard β) × World β
  | [] => ([], w)
  | e :: rest =>
    let (guard, w', th) := w.openWindow e.thread e.machine ⟨g, .classWide⟩ e.receiver t
    let (held, w'') := w'.openAll g t rest
    ((th, guard) :: held, w'')

/-- Close guards one after the other. -/
def closeAll (w : World β) (held : List (Thread × Guard β)) : World β :=
  held.foldl (fun w x => (w.closeWindow x.1 x.2).1) w

/-- Open a window for each entrance, then close those at these positions, in this order. -/
def overlap (w : World β) (g : RegistryRef) (t : CellRef) (es : List Entrance)
    (order : List Nat) : World β :=
  let (held, w') := w.openAll g t es
  w'.closeAll (order.filterMap (held[·]?))

theorem length_openAll (w : World β) (g : RegistryRef) (t : CellRef) (es : List Entrance) :
    (w.openAll g t es).1.length = es.length := by
  induction es generalizing w with
  | nil => rfl
  | cons e rest ih => simp only [World.openAll, List.length_cons, ih]

/-- Opening takes the trampoline out once; only the first guard remembers it. -/
theorem Paired.openAll {w : World β} (h : w.Paired g i r t o) (hes : ∀ e ∈ es, e.Meets w g i r) :
    Overlaps w (w.openAll g t es).2 g i t es.length 0 ∧ (w.openAll g t es).2.Paired g i r t o ∧
    ∀ (j : Nat) x, (w.openAll g t es).1[j]? = some x →
      x.2.Keeps g i t (if j = 0 then w.content t else w.content o) := by
  induction es generalizing w with
  | nil => exact ⟨.refl w g i t, h, fun j x hj => by cases hj⟩
  | cons e rest ih =>
    obtain ⟨he, hrest⟩ := List.forall_mem_cons.mp hes
    have hopen := he.opens h.resolves t
    have hstep := h.overlaps_unswap
    obtain ⟨hafter, hpaired, hheld⟩ :=
      ih h.unswap fun e' he' => (hrest e' he').shifts hstep.shifts
    -- From now on the trampoline holds the original, whatever window is opened next.
    have hsame : ∀ j : Nat, (if j = 0 then (w.unswap g i r t).content t else
        (w.unswap g i r t).content o) = w.content o := by
      intro j
      rw [h.content_unswap, hstep.contents o h.apart, ite_self]
    simp only [World.openAll, hopen]
    refine ⟨?_, hpaired, fun j x hj => ?_⟩
    · have hboth := hstep.trans hafter
      rwa [Nat.add_comm] at hboth
    · cases j with
      | zero =>
        cases hj
        exact ⟨rfl, rfl, rfl⟩
      | succ j =>
        have hkeeps := hheld j x hj
        rw [hsame] at hkeeps
        exact hkeeps

/-- What one more guard closed does. -/
theorem Paired.overlap_concat (h : w.Paired g i r t o) (hes : ∀ e ∈ es, e.Meets w g i r)
    (hj : j < es.length) (hr : (w.overlap g t es order).Resolves g i r) :
    w.overlap g t es (order ++ [j]) = (w.overlap g t es order).swapBack g i r t
      (if j = 0 then w.content t else w.content o) := by
  have hlt : j < (w.openAll g t es).1.length := by rwa [length_openAll]
  have hheld := List.getElem?_eq_getElem hlt
  obtain ⟨-, -, hkeeps⟩ := h.openAll hes
  have hclose := (hkeeps j _ hheld).closes hr
  show (w.openAll g t es).2.closeAll ((order ++ [j]).filterMap ((w.openAll g t es).1[·]?)) = _
  rw [List.filterMap_append, List.filterMap_cons_some hheld, List.filterMap_nil, closeAll,
    List.foldl_append]
  exact congrArg Prod.fst (hclose _)

/-- So far as guards are closed, no more of them than were opened, windows are counted off and
calls counted. -/
theorem Paired.overlaps_overlap (h : w.Paired g i r t o) (hes : ∀ e ∈ es, e.Meets w g i r)
    (hmem : ∀ j ∈ order, j < es.length) (hle : order.length ≤ es.length) :
    Overlaps w (w.overlap g t es order) g i t es.length order.length ∧
      (w.overlap g t es order).Paired g i r t o := by
  induction order using List.reverseRecOn with
  | nil =>
    obtain ⟨hopened, hpaired, -⟩ := h.openAll hes
    exact ⟨hopened, hpaired⟩
  | append_singleton order j ih =>
    rw [List.length_append, List.length_singleton] at hle
    obtain ⟨hbefore, hpaired⟩ :=
      ih (fun j' hj' => hmem j' (List.mem_append_left _ hj')) (Nat.le_of_succ_le hle)
    have hcount := hbefore.openWindows
    have hopen : 0 < ((w.overlap g t es order).entry g i).openWindows := by omega
    have hslot : (if j = 0 then w.content t else w.content o).slot = (w.content o).slot := by
      split
      · exact h.slot
      · rfl
    rw [h.overlap_concat hes (hmem j (List.mem_append_right _ (List.mem_singleton_self j)))
      hpaired.resolves, List.length_append, List.length_singleton]
    have hall := fun token => hbefore.trans (hpaired.overlaps_swapBack token hopen)
    exact ⟨hall _, h.of_overlaps (hall _) (by rw [hpaired.content_swapBack, hslot])⟩

/-- With at least one guard closed the class has the intercepted table, and the trampoline holds
what the guard closed last remembers. -/
theorem Paired.overlap_closed (h : w.Paired g i r t o) (hes : ∀ e ∈ es, e.Meets w g i r)
    (hmem : ∀ j ∈ order, j < es.length) (hle : order.length ≤ es.length) (hne : order ≠ []) :
    ((w.overlap g t es order).classes.get r.cls).table = r.intercepted ∧
    (w.overlap g t es order).content t =
      if order.getLast? = some 0 then w.content t else w.content o := by
  obtain ⟨before, j, rfl⟩ : ∃ before j, order = before ++ [j] :=
    ⟨_, _, (List.dropLast_concat_getLast hne).symm⟩
  rw [List.length_append, List.length_singleton] at hle
  obtain ⟨-, hpaired⟩ := h.overlaps_overlap hes
    (fun j' hj' => hmem j' (List.mem_append_left _ hj')) (Nat.le_of_succ_le hle)
  rw [h.overlap_concat hes (hmem j (List.mem_append_right _ (List.mem_singleton_self j)))
    hpaired.resolves, hpaired.content_swapBack]
  refine ⟨hpaired.table_swapBack _, ?_⟩
  simp only [List.getLast?_concat, Option.some.injEq]

/-! ### The armed class -/

/-- The class of an entry has the intercepted table, and in a slot what patching made of what it
replaced. -/
structure ArmedAt (w : World β) (g : RegistryRef) (i : Nat) (r : Resolution) (k : Nat)
    (t o : CellRef) : Prop extends w.CopyAt r.cls k t o g i r where
  table : (w.classes.get r.cls).table = r.intercepted
  content : w.content t = (w.entry g i).row.copyOf (w.content o) o

/-- Patching leaves the class armed in every slot. -/
theorem Sound.armedAt_patch (hw : w.Sound) {v : VmRef} {core : Core} {c : ClassRef} {n : Nat}
    (hc : w.classes.Live c) (hp : w.patch v core c = (.patched n, w'))
    (hi : w.ownEntry core.registry c = some i) (hr : w'.Resolves core.registry i r)
    (ht : (w'.tables.get r.intercepted)[k]? = some t)
    (ho : (w'.tables.get r.unpatched)[k]? = some o) : w'.ArmedAt core.registry i r k t o := by
  have hanswers := answers_patch w v core c
  rw [hp] at hanswers
  cases hanswers with
  | @patched i' handler offset hi' hnone _ _ =>
    obtain rfl : i' = i := Option.some.inj (hi'.symm.trans hi)
    have hlive := Orderly.registry_live hi
    obtain rfl : r = w.patchOf c handler offset :=
      hr.unique (resolves_patchOf hlive (hw.orderly.lt_size hi) hnone)
    exact
      { resolves := hr
        above := mem_lineage_self _ c
        copy := ht
        original := ho
        table := congrArg Class.table (Store.get_modify_self hc _)
        content := content_installed hw.tabled hc hlive ht ho }

/-- **Windows that overlap end armed just if the first opened is closed last.**  In a world that is
in order, as all worlds are that runs and patches lead to, take a trampoline in place, before a cell
that is none, and any number of windows opened on it one after the other, on instances of the
patched class that are no proxies and have no nearer row; then close the guards in any order.  From
the first guard closed on the class has the intercepted table.  In the end the trampoline holds what
patching put there if the guard opened first was closed last, and else the content of what it
stands before, so that only in the first case it is a trampoline.  No window is counted open that
was not before, each is counted as a call, and every other cell holds what it held. -/
theorem ArmedAt.ends_armed (h : w.ArmedAt g i r k t o) (hw : w.Sound)
    (ht : (w.content t).isTrampoline = true) (ho : (w.content o).isTrampoline = false)
    (hne : es ≠ []) (hes : ∀ e ∈ es, e.Meets w g i r)
    (horder : order.Perm (List.range es.length)) :
    (∀ n, 0 < n →
      ((w.overlap g t es (order.take n)).classes.get r.cls).table = r.intercepted) ∧
    (w.overlap g t es order).content t =
      (if order.getLast? = some 0 then (w.entry g i).row.copyOf (w.content o) o
        else w.content o) ∧
    (((w.overlap g t es order).content t).isTrampoline = true ↔ order.getLast? = some 0) ∧
    ((w.overlap g t es order).entry g i).openWindows = (w.entry g i).openWindows ∧
    ((w.overlap g t es order).entry g i).calls = (w.entry g i).calls + es.length ∧
    ∀ c, c ≠ t → (w.overlap g t es order).content c = w.content c := by
  have hpaired := h.toCopyAt.paired hw
  have hlength : order.length = es.length := by rw [horder.length_eq, List.length_range]
  have hmem : ∀ j ∈ order, j < es.length := by
    intro j hj
    rwa [horder.mem_iff, List.mem_range] at hj
  have hle : order.length ≤ es.length := Nat.le_of_eq hlength
  have hnonempty : order ≠ [] := by
    rw [← List.length_pos_iff, hlength]
    exact List.length_pos_iff.mpr hne
  obtain ⟨hall, -⟩ := hpaired.overlaps_overlap hes hmem hle
  obtain ⟨-, hcontent⟩ := hpaired.overlap_closed hes hmem hle hnonempty
  have hcounts := hall.openWindows
  refine ⟨?_, by rw [hcontent, h.content], ?_, by omega, by rw [hall.calls, hlength],
    hall.contents⟩
  · intro n hn
    have hsome : order.take n ≠ [] := by
      rw [Ne, List.take_eq_nil_iff]
      exact fun hnil => hnil.elim (Nat.pos_iff_ne_zero.mp hn) hnonempty
    have htaken : ∀ j ∈ order.take n, j < es.length := by
      intro j hj
      exact hmem j (List.mem_of_mem_take hj)
    exact (hpaired.overlap_closed hes htaken ((List.length_take_le' n order).trans hle) hsome).1
  · rw [hcontent]
    by_cases hlast : order.getLast? = some 0
    · rw [if_pos hlast]
      exact iff_of_true ht hlast
    · rw [if_neg hlast, ho]
      exact iff_of_false Bool.false_ne_true hlast

end World

/-! ### The demonstration -/

namespace Demo

/-- The activity enters three times. -/
def thrice : List Entrance := List.replicate 3 ⟨{}, ⟨0⟩, ⟨0⟩⟩

/-- What the activity's entry was filled in with. -/
def filledIn : Resolution := ⟨⟨2⟩, ⟨3⟩, 0, ⟨4⟩, ⟨2⟩⟩

/-- The activity's trampoline is in place after its class was patched by hand. -/
theorem armedAt_belated : (belated .classWide).ArmedAt ⟨0⟩ 0 filledIn 0 ⟨2⟩ ⟨0⟩ := by
  have hcore : ((unstaffed .classWide).coreOf ⟨0⟩).registry = ⟨0⟩ := by decide +kernel
  have hlive : (unstaffed .classWide).classes.Live ⟨2⟩ := by decide +kernel
  have hanswer : ((unstaffed .classWide).patch ⟨0⟩ ((unstaffed .classWide).coreOf ⟨0⟩) ⟨2⟩).1 =
      .patched 1 := by decide +kernel
  have hpatched : (unstaffed .classWide).patch ⟨0⟩ ((unstaffed .classWide).coreOf ⟨0⟩) ⟨2⟩ =
      (.patched 1, belated .classWide) := by rw [belated, ← hanswer]
  have hown : (unstaffed .classWide).ownEntry ⟨0⟩ ⟨2⟩ = some 0 := by decide +kernel
  have hresolves : (belated .classWide).Resolves ⟨0⟩ 0 filledIn := by decide +kernel
  have harmed := (sound_unstaffed .classWide).armedAt_patch (k := 0) (t := ⟨2⟩) (o := ⟨0⟩) hlive
    hpatched (hcore ▸ hown) (hcore ▸ hresolves) (by decide +kernel) (by decide +kernel)
  rwa [hcore] at harmed

/-- Three windows on the activity leave the trampoline in place where the first is closed last, and
the original in its place where it is closed first. -/
theorem ends_armed_thrice :
    (((belated .classWide).overlap ⟨0⟩ ⟨2⟩ thrice [2, 1, 0]).content ⟨2⟩).isTrampoline = true ∧
    ((belated .classWide).overlap ⟨0⟩ ⟨2⟩ thrice [0, 2, 1]).content ⟨2⟩ =
      (belated .classWide).content ⟨0⟩ := by
  have hmeets : ∀ e ∈ thrice, e.Meets (belated .classWide) ⟨0⟩ 0 filledIn := fun e he => by
    obtain rfl := List.eq_of_mem_replicate he
    constructor <;> decide +kernel
  have hended := fun (order : List Nat) (horder : order.Perm (List.range thrice.length)) =>
    World.ArmedAt.ends_armed armedAt_belated (sound_belated .classWide) (by decide +kernel)
      (by decide +kernel) (by decide) hmeets horder
  obtain ⟨-, -, harmed, -⟩ := hended [2, 1, 0] (by decide)
  obtain ⟨-, hdisarmed, -⟩ := hended [0, 2, 1] (by decide)
  exact ⟨harmed.mpr rfl, hdisarmed⟩

end Demo

end Interception
