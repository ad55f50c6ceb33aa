/-
Guards closed in any order.

Nothing ties a guard to the place its window has on the thread: closing takes away the innermost
note that equals the guard's, whichever guard made it.  So when windows for one trampoline and one
receiver are open several times, and guards are closed in another order than they were opened in,
the notes no longer stand in the order of the guards.  What stays true is that they are the same
notes, each as often as there are guards for it; and that is all that asking for a window depends
on.

The counters are simpler still.  A guard that is not a passthrough counts on the entry it was opened
on for as long as it is live, so a counter is never asked to go below zero.
-/
import Interception.Proofs.Returns

namespace Interception

variable {β H : Type}

/-- Windows opened on one thread in per-call mode, and closed in any order, each once: what has
become of the world and the thread, which guards are live, and which have been closed. -/
inductive Juggles (w₀ : World β) (t₀ : Thread) :
    World β → Thread → List (Guard β) → List (Guard β) → Prop
  | start : Juggles w₀ t₀ w₀ t₀ [] []
  | enter {w t live closed} (h : Juggles w₀ t₀ w t live closed) (v : VmRef) {core : Core}
      (hmode : core.mode = .perCall) (o : ObjectRef) (m : CellRef) :
      Juggles w₀ t₀ (w.openWindow t v core o m).2.1 (w.openWindow t v core o m).2.2
        ((w.openWindow t v core o m).1 :: live) closed
  | leave {w t before g after closed} (h : Juggles w₀ t₀ w t (before ++ g :: after) closed) :
      Juggles w₀ t₀ (w.closeWindow t g).1 (w.closeWindow t g).2 (before ++ after) (g :: closed)

namespace Guard

/-- The guard's window counts on this entry. -/
def isOn (g : Guard β) (a : RegistryRef) (j : Nat) : Bool :=
  g.registry == a && g.window.entry? == some j

variable {g : Guard β} {i : Nat}

theorem isOn_of_passthrough (h : g.window = .passthrough) (a : RegistryRef) (j : Nat) :
    g.isOn a j = false := by
  simp [isOn, h, Window.entry?]

theorem isOn_of_entry (h : g.window.entry? = some i) {a : RegistryRef} {j : Nat} :
    g.isOn a j = true ↔ g.registry = a ∧ i = j := by
  simp [isOn, h]

/-- The guard changed nothing, or counts on an entry that was filled in and is noted under its own
key. -/
def Keyed (g : Guard β) (w : World β) : Prop :=
  g.window = .passthrough ∨ ∃ i r, g.window = .perCall i g.key ∧ w.Resolves g.registry i r

theorem Keyed.shifts {w w' : World β} (h : g.Keyed w) (hs : w.Shifts w') : g.Keyed w' := by
  rcases h with hpass | ⟨i, r, hwindow, hr⟩
  · exact Or.inl hpass
  · exact Or.inr ⟨i, r, hwindow, hs.resolves.mpr hr⟩

end Guard

/-- What is true of guards being juggled, from where it started. -/
structure Balanced (w₀ : World β) (t₀ : Thread) (w : World β) (t : Thread)
    (live closed : List (Guard β)) : Prop where
  rest : w = { w₀ with registries := w.registries }
  shifts : w₀.Shifts w
  windows : t.windows.Perm (windowKeys live ++ t₀.windows)
  opened : ∀ a j, (w.entry a j).openWindows =
    (w₀.entry a j).openWindows + live.countP (·.isOn a j)
  calls : ∀ a j, (w.entry a j).calls = (w₀.entry a j).calls + closed.countP (·.isOn a j)
  guards : ∀ g ∈ live, g.Keyed w

namespace Balanced

variable {w₀ w : World β} {t₀ t : Thread} {live closed before after : List (Guard β)}

theorem start (w₀ : World β) (t₀ : Thread) : Balanced w₀ t₀ w₀ t₀ [] [] where
  rest := rfl
  shifts := .refl w₀
  windows := .refl _
  opened _ _ := rfl
  calls _ _ := rfl
  guards _ hg := by cases hg

/-- The order in which the live guards are listed does not matter. -/
theorem of_perm {live' : List (Guard β)} (h : Balanced w₀ t₀ w t live closed)
    (hp : live.Perm live') : Balanced w₀ t₀ w t live' closed :=
  { h with
    windows := h.windows.trans (((hp.filter _).map _).append_right _)
    opened := fun a j => by rw [h.opened, hp.countP_eq]
    guards := fun g hg => h.guards g (hp.mem_iff.mpr hg) }

theorem enter (h : Balanced w₀ t₀ w t live closed) (v : VmRef) {core : Core}
    (hmode : core.mode = .perCall) (o : ObjectRef) (m : CellRef) :
    Balanced w₀ t₀ (w.openWindow t v core o m).2.1 (w.openWindow t v core o m).2.2
      ((w.openWindow t v core o m).1 :: live) closed := by
  have hopens := World.opens_openWindow w t v core o m
  generalize w.openWindow t v core o m = x at hopens ⊢
  cases hopens with
  | passthrough _ =>
    exact
      { h with
        windows := by
          rw [windowKeys_cons_of_passthrough rfl]
          exact h.windows
        opened := fun a j => by
          rw [List.countP_cons_of_neg (by simp [Guard.isOn_of_passthrough])]
          exact h.opened a j
        guards := List.forall_mem_cons.mpr ⟨Or.inl rfl, h.guards⟩ }
  | @perCall i r _ hr _ =>
    have hres := (World.interceptionOf_eq_some.mp hr).2.1
    have hshifts := World.shifts_windowOpened w core.registry i
    exact
      { rest := congrArg
          (fun x : World β => { x with
            registries := (w.modifyEntry core.registry i Entry.windowOpened).registries }) h.rest
        shifts := h.shifts.trans hshifts
        windows := by
          rw [windowKeys_cons_of_window rfl]
          exact h.windows.cons _
        opened := fun a j => by
          rw [(hres.windowOpened a j).1, h.opened a j, List.countP_cons]
          simp only [Guard.isOn_of_entry (g := ⟨core.registry, m, o, .perCall i ⟨m, o⟩⟩) rfl]
          omega
        calls := fun a j => by rw [(hres.windowOpened a j).2, h.calls a j]
        guards := List.forall_mem_cons.mpr ⟨Or.inr ⟨i, r, rfl, hshifts.resolves.mpr hres⟩,
          fun g hg => (h.guards g hg).shifts hshifts⟩ }
  | classWide _ _ hm => cases hmode.symm.trans hm

/-- Closing takes an equal note away, and the guard's own counter down. -/
theorem leave_head {g : Guard β} (h : Balanced w₀ t₀ w t (g :: live) closed) :
    Balanced w₀ t₀ (w.closeWindow t g).1 (w.closeWindow t g).2 live (g :: closed) := by
  obtain ⟨hg, hlive⟩ := List.forall_mem_cons.mp h.guards
  rcases hg with hg | ⟨i, r, hg, hres⟩
  · have hpass : g.isPassthrough = true := by
      rw [Guard.isPassthrough, hg]
    have hsame : w.closeWindow t g = (w, t) := by
      rw [World.closeWindow, hg]
    rw [hsame]
    exact
      { h with
        windows := by
          rw [← windowKeys_cons_of_passthrough hpass]
          exact h.windows
        opened := fun a j => by
          rw [h.opened a j, List.countP_cons_of_neg (by simp [Guard.isOn_of_passthrough hg])]
        calls := fun a j => by
          rw [h.calls a j, List.countP_cons_of_neg (by simp [Guard.isOn_of_passthrough hg])]
        guards := hlive }
  · have hpass : g.isPassthrough = false := by
      rw [Guard.isPassthrough, hg]
    have hclose : w.closeWindow t g = (w.modifyEntry g.registry i Entry.windowClosed,
        { t with windows := t.windows.erase g.key }) := by
      rw [World.closeWindow, hg]
    have hshifts := World.shifts_windowClosed w g.registry i
    have hon := fun a j => Guard.isOn_of_entry (g := g) (i := i) (by rw [hg]; rfl) (a := a) (j := j)
    rw [hclose]
    exact
      { rest := congrArg
          (fun x : World β => { x with
            registries := (w.modifyEntry g.registry i Entry.windowClosed).registries }) h.rest
        shifts := h.shifts.trans hshifts
        windows := by
          have hwindows := h.windows.erase g.key
          rw [windowKeys_cons_of_window hpass, List.cons_append, List.erase_cons_head] at hwindows
          exact hwindows
        opened := fun a j => by
          rw [(hres.windowClosed a j).1, h.opened a j, List.countP_cons]
          simp only [hon]
          omega
        calls := fun a j => by
          rw [(hres.windowClosed a j).2, h.calls a j, List.countP_cons]
          simp only [hon]
          omega
        guards := fun g' hg' => (hlive g' hg').shifts hshifts }

theorem leave {g : Guard β} (h : Balanced w₀ t₀ w t (before ++ g :: after) closed) :
    Balanced w₀ t₀ (w.closeWindow t g).1 (w.closeWindow t g).2 (before ++ after)
      (g :: closed) :=
  (h.of_perm List.perm_middle).leave_head

end Balanced

/-- **Guards may be closed in any order.**  With no window open to begin with, and after any number
of steps: the notes are those of the live guards that are no passthrough, each as often as there
are such guards, so a window is found open just if one of them was opened for it; every entry
counts the live guards on it, one at least for each of them, and one call more for each guard on
it that was closed; and counters are all of the world that has changed. -/
theorem Juggles.balance {w₀ w : World β} {t₀ t : Thread} {live closed : List (Guard β)}
    (h : Juggles w₀ t₀ w t live closed) (hnotes : t₀.windows = []) (hcounts : w₀.Windowless) :
    t.windows.Perm (windowKeys live) ∧
    (∀ m o, t.inWindow m o = true ↔
      ∃ g ∈ live, g.isPassthrough = false ∧ g.trampoline = m ∧ g.receiver = o) ∧
    (∀ a j, (w.entry a j).openWindows = live.countP (·.isOn a j) ∧
      (w.entry a j).calls = (w₀.entry a j).calls + closed.countP (·.isOn a j)) ∧
    (∀ g ∈ live, g.isPassthrough = false →
      ∃ i, g.window.entry? = some i ∧ 0 < (w.entry g.registry i).openWindows) ∧
    w = { w₀ with registries := w.registries } := by
  have hb : Balanced w₀ t₀ w t live closed := by
    induction h with
    | start => exact .start w₀ t₀
    | enter _ v hmode o m ih => exact ih.enter v hmode o m
    | leave _ ih => exact ih.leave
  have hwindows : t.windows.Perm (windowKeys live) := by
    have hw := hb.windows
    rwa [hnotes, List.append_nil] at hw
  have hopened : ∀ a j, (w.entry a j).openWindows = live.countP (·.isOn a j) := by
    intro a j
    rw [hb.opened a j, hcounts a j, Nat.zero_add]
  refine ⟨hwindows, ?_, ?_, ?_, hb.rest⟩
  · intro m o
    rw [Thread.inWindow, List.contains_iff_mem, hwindows.mem_iff, mem_windowKeys]
    simp only [Guard.key, WindowKey.mk.injEq]
  · intro a j
    exact ⟨hopened a j, hb.calls a j⟩
  · intro g hg hnot
    obtain ⟨i, hi⟩ := Trail.entry?_of_not_isPassthrough hnot
    refine ⟨i, hi, ?_⟩
    rw [hopened]
    exact List.countP_pos_iff.mpr ⟨g, hg, (Guard.isOn_of_entry hi).mpr ⟨rfl, rfl⟩⟩

namespace Demo

/-- What the demonstration's machine is set up with. -/
def noting : Core := (opened .perCall).world.coreOf ⟨0⟩

/-- A window on the demonstration's activity. -/
def window (x : World Body × Thread) : Guard Body × World Body × Thread :=
  x.1.openWindow x.2 ⟨0⟩ noting ⟨0⟩ ⟨2⟩

/-- One window on the activity, and then a second. -/
def firstWindow : Guard Body × World Body × Thread :=
  window ((opened .perCall).world, (opened .perCall).thread)

def secondWindow : Guard Body × World Body × Thread := window firstWindow.2

/-- The first of the two guards closed. -/
def reordered : World Body × Thread :=
  secondWindow.2.1.closeWindow secondWindow.2.2 firstWindow.1

/-- With the first guard closed the window is still found open. -/
theorem balance_reordered : reordered.2.inWindow ⟨2⟩ ⟨0⟩ = true ∧
    reordered.2.windows.Perm [⟨⟨2⟩, ⟨0⟩⟩] ∧ (reordered.1.entry ⟨0⟩ 0).openWindows = 1 ∧
    (reordered.1.entry ⟨0⟩ 0).calls = ((opened .perCall).world.entry ⟨0⟩ 0).calls + 1 ∧
    reordered.1.classes = (opened .perCall).world.classes := by
  have hmode : noting.mode = .perCall := by decide +kernel
  have hstart : Juggles _ _ (opened .perCall).world (opened .perCall).thread [] [] := .start
  have hjuggles : Juggles _ _ reordered.1 reordered.2 ([secondWindow.1] ++ []) [firstWindow.1] :=
    ((hstart.enter ⟨0⟩ hmode ⟨0⟩ ⟨2⟩).enter ⟨0⟩ hmode ⟨0⟩ ⟨2⟩).leave
  obtain ⟨hnotes, hin, hcounts, -, hrest⟩ :=
    hjuggles.balance (by decide +kernel) (by decide +kernel)
  obtain ⟨hopened, hcalls⟩ := hcounts ⟨0⟩ 0
  refine ⟨(hin ⟨2⟩ ⟨0⟩).mpr ⟨secondWindow.1, List.mem_singleton_self _, ?_⟩, ?_, ?_, ?_, ?_⟩
  · decide +kernel
  · rw [show [⟨⟨2⟩, ⟨0⟩⟩] = windowKeys ([secondWindow.1] ++ []) by decide +kernel]
    exact hnotes
  · rw [hopened]
    decide +kernel
  · rw [hcalls]
    decide +kernel
  · rw [hrest]

end Demo

end Interception
