/-
What windows give back.

While class-wide windows are open, a patched class may have the table it had before and a
trampoline may hold something else.  Both are only lent.  What carries the induction is that
every cell that ever was a trampoline either is one or is the trampoline of a window in
progress, which puts it back when it closes; a window inside cannot undo this, since it gives
back what it found.

So once no window is open, every patched class has its own table, and whatever was a trampoline
before is one again.  Classes defined meanwhile change nothing about it: what patching copies
for them it copies right, and it is theirs alone.
-/
import Interception.Proofs.Coherence

namespace Interception

variable {β H : Type}

namespace World

variable {w w' x : World β} {v : VmRef} {c : ClassRef} {g : RegistryRef} {i k : Nat}
  {r : Resolution} {name : String} {m o : CellRef}

/-- No window is open on any entry. -/
def Windowless (w : World β) : Prop := ∀ g i, (w.entry g i).openWindows = 0

/-- Only the entries there are matter. -/
instance (w : World β) : Decidable w.Windowless :=
  decidable_of_iff
    (∀ g ∈ w.registries.refs, ∀ i < (w.registries.get g).entries.size,
      (w.entry g i).openWindows = 0)
    ⟨fun h g i => by
      by_cases hg : w.registries.Live g
      · by_cases hi : i < (w.registries.get g).entries.size
        · exact h g (Store.mem_refs.mpr hg) i hi
        · rw [entry_of_size_le (Nat.le_of_not_lt hi)]
          rfl
      · rw [entry_of_not_live hg]
        rfl,
      fun h g _ i _ => h g i⟩

/-- A patched class has the table patching gave it, or the one it had before while a window is
open on its entry. -/
structure Swaps (w : World β) : Prop where
  table : ∀ {g i r}, w.Resolves g i r → (w.classes.get r.cls).table = r.intercepted ∨
    ((w.classes.get r.cls).table = r.unpatched ∧ 0 < (w.entry g i).openWindows)

theorem Swaps.armed (h : w.Swaps) (hw : w.Windowless) : w.Armed := fun g i r hr => by
  rcases h.table hr with htable | ⟨-, hopen⟩
  · exact htable
  · rw [hw g i] at hopen
    cases hopen

/-! ### New classes -/

/-- A class made since has its table if it was patched, and in it what patching makes of what it
copied. -/
structure Equips (w w' : World β) : Prop where
  table : ∀ {g i r}, w'.Resolves g i r → ¬ w.classes.Live r.cls →
    (w'.classes.get r.cls).table = r.intercepted
  copies : ∀ {g i r} {k : Nat} {m o : CellRef}, w'.Resolves g i r → ¬ w.classes.Live r.cls →
    (w'.tables.get r.intercepted)[k]? = some m → (w'.tables.get r.unpatched)[k]? = some o →
    w'.content m = (w'.entry g i).row.copyOf (w'.content o) o

namespace Equips

/-- Nothing was patched. -/
theorem of_resolves (ho : w.Orderly) (hres : ∀ {g i r}, w'.Resolves g i r → w.Resolves g i r) :
    w.Equips w' where
  table hr hnew := absurd (ho.live (hres hr)) hnew
  copies hr hnew := absurd (ho.live (hres hr)) hnew

theorem enroll (h : w.Equips x) (hl : x.Lineages) (ho : x.Orderly) (ht : x.Tabled)
    (hn : x.Newcomer v c) : w.Equips (x.enroll v c) where
  table {g i r} hr hnew := by
    rcases resolves_initializeClass (resolves_enroll.mp hr) with hold | hfilled
    · have hne : r.cls ≠ c := hn.unbound g i r hold
      have hsame : (x.enroll v c).classes.get r.cls = x.classes.get r.cls :=
        classes_initializeClass_of_ne x v hne
      rw [hsame]
      exact h.table hold hnew
    · have htable := table_initializeClass hn.live hn.unbound hr hfilled.cls
      rw [hfilled.cls]
      exact htable
  copies {g i r k m o} hr hnew hm ho' := by
    have hp := patches_patch x v (x.coreOf v) c
    obtain ⟨hpatched, -⟩ := ht.patch hl ho hn.live (v := v) (x.coreOf v)
    have hext := extends_patched x v c
    have hr' : (x.patch v (x.coreOf v) c).2.Resolves g i r := hr
    generalize (x.patch v (x.coreOf v) c).2 = y at hp hpatched hext hr'
    -- Publishing the class changes no cell.
    obtain ⟨hm', ho', hrow, hcopy, horiginal⟩ :=
      hpatched.copy_kept hext.grows hext.cells hr' hm ho'
    rw [hrow, hcopy, horiginal]
    cases hp with
    | nothing => exact h.copies hr' hnew hm' ho'
    | @installs j handler offset hi _ _ _ =>
      have hinstalls := extends_installTrampolines x (x.coreOf v).registry j handler offset
        (Nat.zero_le c.index)
      rcases resolves_installTrampolines hr' with hold | ⟨rfl, rfl, rfl⟩
      · obtain ⟨hm', ho', hrow, hcopy, horiginal⟩ :=
          ht.copy_kept hinstalls.grows hinstalls.cells hold hm' ho'
        rw [hrow, hcopy, horiginal]
        exact h.copies hold hnew hm' ho'
      · exact content_installed ht hn.live (Orderly.registry_live hi) hm' ho'

theorem define (hw : w.Sound) {d : ClassDecl β} (hd : w.define v d = .ok (c, w')) :
    w.Equips w' :=
  hw.define_induct hd (fun _ => of_resolves hw.orderly fun hr => hr)
    fun ho hl ht hn h => h.enroll hl ho ht hn

theorem newVmAround (hw : w.Sound) (options : VmOptions) (core : Core) :
    w.Equips (w.newVmAround options core).2 :=
  hw.newVmAround_keeps options core (of_resolves hw.orderly fun hr => hr)
    fun ho hl ht hn h => h.enroll hl ho ht hn

end Equips

/-! ### Names -/

/-- Either no patched class has another above it, or there is one machine. -/
def Legible (w : World β) : Prop := w.Unstacked ∨ w.vms.size ≤ 1

theorem Legible.of_grows (h : w'.Legible) (hw : w.Sound) (hg : w.Grows w') : w.Legible :=
  h.imp (fun hu => hu.of_grows hw hg) hg.alone

/-- Then what patching replaced has the name of its position. -/
theorem Legible.name_unpatched (h : w.Legible) (hw : w.Sound)
    (hn : w.vms.size ≤ 1 → w.Named) (hr : w.Resolves g i r)
    (hk : w.slotOf r.cls name = some k) (ho : (w.tables.get r.unpatched)[k]? = some o) :
    (w.content o).name = name := by
  have hfits := hw.tabled.unpatched hr
  rcases h with hu | hone
  · exact name_of_declared? (hfits.plain ho (hw.not_copied_unpatched hu hr ho) hk)
  · exact (hn hone).name_of_fits hw.lineages hw.tabled (hw.orderly.live hr) hfits ho hk

/-- The cell a patched class has in its own table for a method listed for it. -/
def Listed (w : World β) (m : CellRef) : Prop := ∃ g i r name, ∃ k : Nat, w.Resolves g i r ∧
  w.slotOf r.cls name = some k ∧ (w.entry g i).row.intercepts name = true ∧
  (w.tables.get r.intercepted)[k]? = some m

/-- It was that before, if the entry was filled in already. -/
theorem Listed.of_grows (hw : w.Sound) (hg : w.Grows w') (hr : w.Resolves g i r)
    (hk : w'.slotOf r.cls name = some k) (hlisted : (w'.entry g i).row.intercepts name = true)
    (hm : (w'.tables.get r.intercepted)[k]? = some m) : w.Listed m := by
  rw [slotOf, (hg.classes _ (hw.orderly.live hr)).2.slotOf] at hk
  rw [hg.rows g i hr.live] at hlisted
  rw [hg.table_intercepted hw.tabled hr] at hm
  exact ⟨g, i, r, name, k, hr, hk, hlisted, hm⟩

/-- Where no entry is filled in nothing is listed anew. -/
theorem Listed.of_resolves (h : w'.Listed m) (hw : w.Sound) (hg : w.Grows w')
    (hres : ∀ {g i r}, w'.Resolves g i r → w.Resolves g i r) : w.Listed m := by
  obtain ⟨g, i, r, name, k, hr, hk, hlisted, hm⟩ := h
  exact .of_grows hw hg (hres hr) hk hlisted hm

/-- What is listed anew is a trampoline. -/
theorem Equips.listed (h : w.Equips w') (hw : w.Sound) (hext : Extends w.classes.size w w')
    (hw' : w'.Sound) (hn : w'.vms.size ≤ 1 → w'.Named) (hl : w'.Legible) (hm : w'.Listed m) :
    w.Listed m ∨ (w'.content m).isTrampoline = true := by
  obtain ⟨g, i, r, name, k, hr, hk, hlisted, hcell⟩ := hm
  rcases hext.newly hr with hold | hnew
  · exact Or.inl (Listed.of_grows hw hext.grows hold hk hlisted hcell)
  · obtain ⟨o, ho⟩ := (hw'.tabled.unpatched hr).exists_cell hk
    have hfresh : ¬ w.classes.Live r.cls := Nat.not_lt_of_le hnew
    rw [h.copies hr hfresh hcell ho, Row.copyOf, hl.name_unpatched hw' hn hr hk ho, if_pos hlisted]
    exact Or.inr rfl

/-! ### Opening a window -/

section Windows

variable {th : Thread} {core : Core} {this : ObjectRef}

variable (w th v core this m) in
/-- Opening a window takes none off any entry, and puts one on its own. -/
theorem openWindows_openWindow :
    (∀ g i, (w.entry g i).openWindows ≤
      ((w.openWindow th v core this m).2.1.entry g i).openWindows) ∧
    ∀ i, (w.openWindow th v core this m).1.window.entry? = some i →
      0 < ((w.openWindow th v core this m).2.1.entry
        (w.openWindow th v core this m).1.registry i).openWindows := by
  -- Per call and class-wide, the entries change alike.
  have hentries : ∀ {x : World β} {a j r}, w.Resolves a j r →
      (∀ g i, x.entry g i = (w.modifyEntry a j Entry.windowOpened).entry g i) →
      (∀ g i, (w.entry g i).openWindows ≤ (x.entry g i).openWindows) ∧
        0 < (x.entry a j).openWindows := fun {x a j r} hr hx => by
    have hself := entry_modifyEntry_self w a j Entry.windowOpened hr.live hr.lt_size
    refine ⟨fun g i => ?_, ?_⟩
    · by_cases hgi : g = a ∧ i = j
      · obtain ⟨rfl, rfl⟩ := hgi
        rw [hx, hself]
        exact Nat.le_succ _
      · exact Nat.le_of_eq (by rw [hx, entry_modifyEntry_of_ne _ _ _ _ hgi])
    · rw [hx, hself]
      exact Nat.succ_pos _
  have hopens := opens_openWindow w th v core this m
  generalize w.openWindow th v core this m = y at hopens ⊢
  cases hopens with
  | passthrough _ => exact ⟨fun _ _ => Nat.le_refl _, fun i hi => by cases hi⟩
  | perCall _ hr _ =>
    obtain ⟨hle, hpos⟩ := hentries (interceptionOf_eq_some.mp hr).2.1 fun _ _ => rfl
    refine ⟨hle, fun i hi => ?_⟩
    cases hi
    exact hpos
  | @classWide j r _ hr _ =>
    have hregistries := registries_disarm w r m
    obtain ⟨hle, hpos⟩ := hentries (interceptionOf_eq_some.mp hr).2.1
      (x := (w.disarm r m).modifyEntry core.registry j Entry.windowOpened) fun g i => by
        rw [entry, modifyEntry, hregistries]
        rfl
    refine ⟨hle, fun i hi => ?_⟩
    cases hi
    exact hpos

theorem openWindow_of_isPassthrough
    (h : (w.openWindow th v core this m).1.isPassthrough = true) :
    (w.openWindow th v core this m).2.1 = w := by
  have hopens := opens_openWindow w th v core this m
  generalize w.openWindow th v core this m = y at hopens h ⊢
  cases hopens with
  | passthrough _ => rfl
  | perCall _ _ _ => cases h
  | classWide _ _ _ => cases h

theorem Swaps.openWindow (h : w.Swaps) (ho : w.Orderly) :
    (w.openWindow th v core this m).2.1.Swaps := by
  refine ⟨fun {g i r} hr => ?_⟩
  obtain ⟨hle, hpos⟩ := openWindows_openWindow w v m th core this
  have hr' : w.Resolves g i r := (shifts_openWindow w th v core this m).resolves.mp hr
  have hbefore := h.table hr'
  have hopens := opens_openWindow w th v core this m
  generalize w.openWindow th v core this m = y at hopens hle hpos ⊢
  cases hopens with
  | passthrough _ => exact hbefore
  | perCall _ _ _ =>
    exact hbefore.imp_right fun hold => ⟨hold.1, Nat.lt_of_lt_of_le hold.2 (hle g i)⟩
  | @classWide j r₀ _ hr₀ _ =>
    have hres := (interceptionOf_eq_some.mp hr₀).2.1
    by_cases hcls : r.cls = r₀.cls
    · obtain ⟨rfl, rfl⟩ := ho.once hr' hres hcls
      obtain rfl := hr'.unique hres
      exact Or.inr ⟨table_disarm_self (ho.live hr') m, hpos _ rfl⟩
    · have hsame : ((w.disarm r₀ m).modifyEntry core.registry j
          Entry.windowOpened).classes.get r.cls = w.classes.get r.cls := table_disarm_of_ne hcls m
      rw [hsame]
      exact hbefore.imp_right fun hold => ⟨hold.1, Nat.lt_of_lt_of_le hold.2 (hle g i)⟩

end Windows

end World

/-! ### Pieces of a run -/

namespace Settles

variable {t u : Trail β}

/-- Tables stay swapped only where windows stay open. -/
theorem swaps (h : Settles t u) (hu : u.world.Orderly) (ht : t.world.Swaps) :
    u.world.Swaps := by
  refine ⟨fun {g i r} hr => ?_⟩
  by_cases hc : t.world.classes.Live r.cls
  · have hr' := h.newly hr hc
    obtain ⟨new, -, hcount⟩ := h.counters
    rcases h.tables r.cls hc with hsame | ⟨g', i', r', hr₁, hcls, htable⟩
    · rw [hsame, (hcount g i hr'.live).1]
      exact ht.table hr'
    · obtain ⟨rfl, rfl⟩ := hu.once hr hr₁ hcls.symm
      rw [htable, hr.unique hr₁]
      exact Or.inl rfl
  · exact Or.inl (h.armed hr hc)

end Settles

/-! ### What is lent -/

namespace Trail

variable {t u : Trail β} {v : VmRef} {m n : CellRef} {this : ObjectRef}

/-- A trampoline, or the one of a window in progress. -/
def Held (t : Trail β) (m : CellRef) : Prop :=
  (t.world.content m).isTrampoline = true ∨
    ∃ g ∈ inProgress t.log, g.isPassthrough = false ∧ g.trampoline = m

/-- Every window in progress is counted on its entry. -/
def Counted (t : Trail β) : Prop :=
  ∀ g ∈ inProgress t.log, ∀ i, g.window.entry? = some i →
    0 < (t.world.entry g.registry i).openWindows

/-- Tables and trampolines are there or lent. -/
structure Returning (t : Trail β) : Prop where
  swaps : t.world.Swaps
  counted : t.Counted
  returns : ∀ w ∈ t.worlds, ∀ m, (w.content m).isTrampoline = true → t.Held m
  listed : t.world.Legible → ∀ m, t.world.Listed m → t.Held m

/-- A window that is no passthrough counts on an entry. -/
theorem entry?_of_not_isPassthrough {g : Guard β} (h : g.isPassthrough = false) :
    ∃ i, g.window.entry? = some i := by
  obtain ⟨registry, m, o, window⟩ := g
  cases window with
  | passthrough => cases h
  | perCall i key => exact ⟨i, rfl⟩
  | classWide i token => exact ⟨i, rfl⟩

/-- Without windows nothing is lent. -/
theorem Held.isTrampoline (h : t.Held m) (hc : t.Counted) (hw : t.world.Windowless) :
    (t.world.content m).isTrampoline = true := by
  rcases h with htramp | ⟨g, hg, hpass, -⟩
  · exact htramp
  · obtain ⟨i, hi⟩ := entry?_of_not_isPassthrough hpass
    have hcount := hc g hg i hi
    rw [hw g.registry i] at hcount
    cases hcount

theorem Counted.of_settles (hc : t.Counted) (h : Settles t u)
    (hcalls : inProgress u.log = inProgress t.log) : u.Counted := by
  intro g hg i hi
  rw [hcalls] at hg
  have hpos := hc g hg i hi
  have hlive : t.world.registries.Live g.registry := by
    by_contra hno
    rw [World.entry_of_not_live hno] at hpos
    cases hpos
  obtain ⟨new, -, hcount⟩ := h.counters
  rw [(hcount g.registry i hlive).1]
  exact hpos

/-- The worlds after a step. -/
theorem mem_worlds_of_log
    (hlog : u.log = t.log ∨ ∃ e, u.log = ⟨e, u.world, u.thread⟩ :: t.log) {w : World β}
    (hw : w ∈ u.worlds) : w = u.world ∨ w ∈ t.worlds := by
  rcases List.mem_cons.mp hw with rfl | hw
  · exact Or.inl rfl
  · rcases hlog with hlog | ⟨e, hlog⟩
    · rw [hlog] at hw
      exact Or.inr (List.mem_cons_of_mem _ hw)
    · rw [hlog, List.map_cons] at hw
      exact (List.mem_cons.mp hw).imp_right (List.mem_cons_of_mem _)

namespace Returning

/-- It is enough to look at what was held and at what is listed anew. -/
theorem step (h : t.Returning) (hs : u.world.Swaps) (hc : u.Counted)
    (hgrows : t.world.Sound ∧ t.world.Grows u.world) (hheld : ∀ {m}, t.Held m → u.Held m)
    (hlisted : u.world.Legible → ∀ {m}, u.world.Listed m → t.world.Listed m ∨
      (u.world.content m).isTrampoline = true)
    (hlog : u.log = t.log ∨ ∃ e, u.log = ⟨e, u.world, u.thread⟩ :: t.log) : u.Returning where
  swaps := hs
  counted := hc
  returns w hw m hm := by
    rcases mem_worlds_of_log hlog hw with rfl | hw
    · exact Or.inl hm
    · exact hheld (h.returns w hw m hm)
  listed hl m hm := by
    rcases hlisted hl hm with hm | htramp
    · exact hheld (h.listed (hl.of_grows hgrows.1 hgrows.2) m hm)
    · exact Or.inl htramp

/-- A change to the world alone that equips new classes and changes nothing else. -/
theorem extends_world {w : World β} (h : t.Returning) (ht : t.world.Sound)
    (hext : World.Extends t.world.classes.size t.world w) (hequips : t.world.Equips w)
    (hw : w.Sound) (hn : w.vms.size ≤ 1 → w.Named) :
    ({ t with world := w } : Trail β).Returning := by
  have hsettles : Settles t { t with world := w } := .of_extends hext hequips.table
  refine h.step (hsettles.swaps hw.orderly h.swaps) (h.counted.of_settles hsettles rfl)
    ⟨ht, hext.grows⟩ (fun {m} hm => ?_) (fun hl {m} => hequips.listed ht hext hw hn hl)
    (Or.inl rfl)
  refine hm.imp_left fun htramp => ?_
  show (w.content m).isTrampoline = true
  rw [hext.content ((ht.tabled.copied htramp).live ht.tabled)]
  exact htramp

/-- An event outside windows. -/
theorem outside (h : t.Returning) (ht : t.world.Sound) {e : Event β} (he : e.OutsideWindows)
    (th : Thread) : (({ t with thread := th } : Trail β).note e).Returning := by
  have hcalls := inProgress_cons he t.world th t.log
  refine h.step h.swaps (fun g hg => h.counted g (hcalls ▸ hg)) ⟨ht, .refl _⟩ (fun hm => ?_)
    (fun _ {m} hm => Or.inl hm) (Or.inr ⟨e, rfl⟩)
  refine hm.imp_right fun ⟨g, hg, hpass, hm⟩ => ⟨g, ?_, hpass, hm⟩
  show g ∈ inProgress (⟨e, t.world, th⟩ :: t.log)
  rw [hcalls]
  exact hg

/-- The trampoline whose window is opened is lent. -/
theorem begin (h : t.Returning) (ht : t.world.Sound) :
    (t.begin v (t.world.coreOf v) this m).Returning := by
  have hshifts := World.shifts_openWindow t.world t.thread v (t.world.coreOf v) this m
  obtain ⟨hle, hpos⟩ := World.openWindows_openWindow t.world v m t.thread (t.world.coreOf v) this
  refine h.step (h.swaps.openWindow ht.orderly) (fun g hg i hi => ?_) ⟨ht, hshifts.grows⟩
    (fun {n} hn => ?_)
    (fun _ {n} hn => Or.inl (hn.of_resolves ht hshifts.grows hshifts.resolves.mp))
    (Or.inr ⟨_, rfl⟩)
  · rcases List.mem_cons.mp hg with rfl | hg
    · exact hpos i hi
    · exact Nat.lt_of_lt_of_le (h.counted g hg i hi) (hle g.registry i)
  · rcases hn with htramp | ⟨g, hg, hn⟩
    · by_cases hnm : n = m
      · subst hnm
        cases hpass : (t.guardFor v (t.world.coreOf v) this n).isPassthrough with
        | false =>
          exact Or.inr ⟨_, List.mem_cons_self, hpass, trampoline_guardFor t v _ this n⟩
        | true =>
          have hsame : (t.begin v (t.world.coreOf v) this n).world = t.world :=
            World.openWindow_of_isPassthrough hpass
          refine Or.inl ?_
          rw [hsame]
          exact htramp
      · refine Or.inl ?_
        show ((t.world.openWindow t.thread v (t.world.coreOf v) this m).2.1.content
          n).isTrampoline = true
        rw [World.content_openWindow_of_ne hnm]
        exact htramp
    · exact Or.inr ⟨g, List.mem_cons_of_mem _ hg, hn⟩

/-- It is given back when the window is closed. -/
theorem finish (h : t.Returning) (ht : t.world.Sound)
    (htramp : (t.world.content m).isTrampoline = true) (hu : u.Returning) (hus : u.world.Sound)
    (hcalls : inProgress u.log = t.guardFor v (t.world.coreOf v) this m :: inProgress t.log)
    (hsettles : Settles t (u.finish (t.guardFor v (t.world.coreOf v) this m))) :
    (u.finish (t.guardFor v (t.world.coreOf v) this m)).Returning := by
  have hshifts := World.shifts_closeWindow u.world u.thread
    (t.guardFor v (t.world.coreOf v) this m)
  have hguard := trampoline_guardFor t v (t.world.coreOf v) this m
  have hlog : inProgress (u.finish (t.guardFor v (t.world.coreOf v) this m)).log =
      inProgress t.log := inProgress_finish hcalls
  refine hu.step (hsettles.swaps (orderly_finish hus.orderly _) h.swaps)
    (h.counted.of_settles hsettles hlog) ⟨hus, hshifts.grows⟩ (fun {n} hn => ?_)
    (fun _ {n} hn => Or.inl (hn.of_resolves hus hshifts.grows hshifts.resolves.mp))
    (Or.inr ⟨_, rfl⟩)
  -- The trampoline of the window holds again what it held.
  by_cases hnm : n = m
  · subst hnm
    refine Or.inl ?_
    rw [hsettles.contents n ((ht.tabled.copied htramp).live ht.tabled)]
    exact htramp
  · rcases hn with hn | ⟨g, hg, hpass, hgn⟩
    · refine Or.inl ?_
      show ((u.world.closeWindow u.thread _).1.content n).isTrampoline = true
      rw [World.content_closeWindow_of_ne (hguard.symm ▸ hnm)]
      exact hn
    · rw [hcalls] at hg
      rcases List.mem_cons.mp hg with rfl | hg
      · exact absurd (hgn.symm.trans hguard) hnm
      · exact Or.inr ⟨g, hlog ▸ hg, hpass, hgn⟩

end Returning

end Trail

/-! ### Every run -/

/-- What checked runs keep of the world whatever windows lend. -/
structure Trail.Grounded (t : Trail β) : Prop where
  sound : t.world.Sound
  directs : t.world.Directs
  named : t.world.vms.size ≤ 1 → t.world.Named

/-- Checked runs keep it, and every piece of them settles what it does and closes the windows it
opens. -/
theorem kept_grounded : Kept (β := β) (fun op => op.IsChecked = true) World.MeantAlone
    Trail.Grounded
    (fun t u => (((t.world.Sound ∧ t.world.Tends u.world) ∧
      (u.world.vms.size ≤ 1 → t.world.SameNames u.world)) ∧ Settles t u) ∧
      inProgress u.log = inProgress t.log) := by
  have k := (kept_named (β := β).both (kept_settles.restrict Op.IsChecked.isOrdinary)).both
    (kept_inProgress.restrict Op.IsChecked.isOrdinary)
  refine k.reword (by simp only [and_true, implies_true]) (fun {t} => ⟨fun h => ?_, fun h => ?_⟩)
    Iff.rfl
  · obtain ⟨⟨⟨⟨hw, hd⟩, hn⟩, -⟩, -⟩ := h
    exact ⟨hw, hd, hn⟩
  · exact ⟨⟨⟨⟨h.sound, h.directs⟩, h.named⟩, h.sound.orderly⟩, trivial⟩

/-- Checked runs give back what windows lend. -/
theorem kept_returning : Kept (β := β) (fun op => op.IsChecked = true) World.MeantAlone
    (fun t => t.Grounded ∧ t.Returning)
    (fun t u => (((t.world.Sound ∧ t.world.Tends u.world) ∧
      (u.world.vms.size ≤ 1 → t.world.SameNames u.world)) ∧ Settles t u) ∧
      inProgress u.log = inProgress t.log) := by
  have k := kept_grounded (β := β)
  have only : ∀ {t : Trail β} {w : World β}, t.Grounded ∧ t.Returning →
      ({ t with world := w } : Trail β).Grounded → t.world.OnlyObjects w →
      ({ t with world := w } : Trail β).Returning := fun {t w} ht hw honly =>
    ht.2.extends_world ht.1.sound (honly.toExtends _)
      (.of_resolves ht.1.sound.orderly honly.turns.resolves) hw.sound hw.named
  exact
    { ordinary := k.ordinary
      refl := fun ht => k.refl ht.1
      trans := fun hu hx h h' => k.trans hu.1 hx.1 h h'
      note := by
        intro t e he ht
        have h := k.note he ht.1
        exact ⟨⟨h.inv, ht.2.outside ht.1.sound he.outsideWindows t.thread⟩, h.rel⟩
      define := by
        intro t v d c w ha ht hd
        have h := k.define ha ht.1 hd
        exact ⟨⟨h.inv, ht.2.extends_world ht.1.sound (World.extends_define hd)
          (World.Equips.define ht.1.sound hd) h.inv.sound h.inv.named⟩, h.rel⟩
      allocate := by
        intro t v c ha ht
        have h := k.allocate (v := v) (c := c) ha ht.1
        exact ⟨⟨h.inv, only ht h.inv (World.onlyObjects_allocate t.world v c)⟩, h.rel⟩
      setField := by
        intro t o i x w ha ht hf
        have h := k.setField ha ht.1 hf
        exact ⟨⟨h.inv, only ht h.inv (World.onlyObjects_setField hf)⟩, h.rel⟩
      frame := by
        intro t v m this args ht hm hd
        obtain ⟨hin, hout⟩ := k.frame args ht.1 hm hd
        refine ⟨⟨hin, ht.2.outside (e := .entered v m this args) ht.1.sound trivial _⟩,
          fun u hu h => ?_⟩
        have h' := hout u hu.1 h
        exact ⟨⟨h'.inv, hu.2.outside (e := .left v m this) hu.1.sound trivial _⟩, h'.rel⟩
      window := by
        intro t v m this args replaced handler ht hm he hr hw hh
        obtain ⟨hin, hout⟩ := k.window ht.1 hm he hr hw hh
        refine ⟨⟨hin, ht.2.begin ht.1.sound⟩, fun u hu h => ?_⟩
        have h' := hout u hu.1 h
        exact ⟨⟨h'.inv, ht.2.finish ht.1.sound (Descriptor.isTrampoline_of_replaced? hr) hu.2
          hu.1.sound h.2 h'.rel.1.2⟩, h'.rel⟩
      slot := fun ht hm => k.slot ht.1 hm
      direct := fun ha ht hm => k.direct ha ht.1 hm
      method := fun ha ht hrec hacc => k.method ha ht.1 hrec hacc
      execute := fun ha ht => k.execute ha ht.1
      replaced := fun ht hm hr hway => k.replaced ht.1 hm hr hway }

section Reached

variable {host : Host β H} {s : State β (Logged β H)}

/-- At every moment tables are swapped only where windows are open.  Where none is, the cells
listed for patched classes are trampolines, and so is every cell that was one before. -/
theorem Reached.returning
    (hb : ∀ b v this args, (host.body b v this args).Uses fun op => op.IsChecked = true)
    (hs : Reached host (fun op => op.IsChecked = true) s) :
    s.trail.Ordered
      (fun x => x.Swaps ∧ (x.Legible → x.Windowless → ∀ m, x.Listed m →
        (x.content m).isTrampoline = true))
      fun w x => x.Windowless → ∀ m, (w.content m).isTrampoline = true →
        (x.content m).isTrampoline = true := by
  refine Reached.remembers kept_returning (fun {t} ht => ?_) hb ?_ ?_ ?_ hs
  · obtain ⟨-, ht⟩ := ht
    refine ⟨⟨ht.swaps, fun hl hw m hm => ?_⟩, fun w hw hwindowless m hm => ?_⟩
    · exact (ht.listed hl m hm).isTrampoline ht.counted hw
    · exact (ht.returns w hw m hm).isTrampoline ht.counted hwindowless
  · refine ⟨⟨.empty, .empty, fun _ => .empty⟩, ?_⟩
    exact
      { swaps := ⟨fun hr => absurd hr.live (Nat.not_lt_zero _)⟩
        counted := fun g hg => by cases hg
        returns := fun w hw m hm => by
          obtain rfl := List.mem_singleton.mp hw
          exact Or.inl hm
        listed := by
          rintro _ m ⟨g, i, r, name, k, hr, -⟩
          exact absurd hr.live (Nat.not_lt_zero _) }
  · rintro t rows ⟨hg, ht⟩
    have hext := World.extends_newRegistry t.world.classes.size t.world rows
    have hw := hg.sound.newRegistry rows
    have hn : (t.world.newRegistry rows).2.vms.size ≤ 1 → (t.world.newRegistry rows).2.Named :=
      fun hone => (hg.named (hext.grows.alone hone)).newRegistry hg.sound rows
    exact ⟨⟨hw, hg.directs.newRegistry hg.sound rows, hn⟩, ht.extends_world hg.sound hext
      (.of_resolves hg.sound.orderly World.resolves_newRegistry) hw hn⟩
  · rintro t options core - ⟨hg, ht⟩
    have hext := World.extends_newVmAround t.world options core
    have hw := hg.sound.newVmAround options core
    have hn : (t.world.newVmAround options core).2.vms.size ≤ 1 →
        (t.world.newVmAround options core).2.Named :=
      fun hone => (hg.named (hext.grows.alone hone)).newVmAround hg.sound options core
    exact ⟨⟨hw, hg.directs.newVmAround hg.sound options core, hn⟩,
      ht.extends_world hg.sound hext (.newVmAround hg.sound options core) hw hn⟩

end Reached

end Interception
