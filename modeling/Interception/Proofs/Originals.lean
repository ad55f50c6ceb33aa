/-
What a trampoline stands for.

Where no class with a row has a superclass with one, a patched table replaces cells that
are no copies themselves.  So a lineage is patched at most once, the cells that were
replaced never change, and a trampoline, whenever it is one, is its original routed to
interception: inside a class-wide window it may hold something else, but never another
trampoline.
-/
import Interception.Proofs.Soundness

namespace Interception

variable {β H : Type}

namespace World

variable {w w' : World β} {v : VmRef} {c : ClassRef} {g g' : RegistryRef} {i i' : Nat}
  {r r' : Resolution}

/-- No class with a row has a proper superclass with one. -/
def Unstacked (w : World β) : Prop :=
  ∀ v c a, w.Registered v c → (w.ownEntry (w.coreOf v).registry c).isSome = true →
    a ∈ w.ancestors c → w.ownEntry (w.coreOf v).registry a = none

/-- Only the machines there are and the classes they know matter. -/
instance (w : World β) : Decidable w.Unstacked :=
  decidable_of_iff
    (∀ v ∈ w.vms.refs, ∀ c ∈ (w.vms.get v).classes.classes.toList,
      (w.ownEntry (w.coreOf v).registry c).isSome = true →
      ∀ a ∈ w.ancestors c, w.ownEntry (w.coreOf v).registry a = none)
    ⟨fun h v c a hc hrow ha =>
      h v (Store.mem_refs.mpr hc.live_vm) c (Array.mem_toList_iff.mpr hc) hrow a ha,
      fun h v _ c hc hrow a ha => h v c a (Array.mem_toList_iff.mp hc) hrow ha⟩

/-- Rows that are not stacked were not before. -/
theorem Unstacked.of_grows (h : w'.Unstacked) (hw : w.Sound) (hg : w.Grows w') :
    w.Unstacked := by
  intro v c a hc hrow ha
  obtain ⟨i, hi⟩ := Option.isSome_iff_exists.mp hrow
  have hlive := Orderly.registry_live hi
  have hcore := hg.coreOf hc.live_vm
  have hcls := hw.homes.live hc
  have ha' : a ∈ w'.ancestors c := by
    rw [World.ancestors, (hg.classes c hcls).2.ancestors]
    exact ha
  have hrow' : (w'.ownEntry (w'.coreOf v).registry c).isSome = true := by
    rw [hcore, hg.ownEntry hlive hcls, hrow]
  have hnone := h v c a (hc.of_grows hg) hrow' ha'
  rw [hcore, hg.ownEntry hlive (hw.lineages.live ha)] at hnone
  exact hnone

/-- A lineage is patched at most once. -/
theorem Sound.patched_once (hw : w.Sound) (hu : w.Unstacked) (hc : w.classes.Live c)
    (hr : w.Resolves g i r) (hr' : w.Resolves g' i' r') (hmem : r.cls ∈ w.lineage c)
    (hmem' : r'.cls ∈ w.lineage c) : g = g' ∧ i = i' ∧ r = r' := by
  obtain ⟨v, hv⟩ := hw.homed c hc
  have hg := hw.homes.registry hv hr hmem
  have hg' := hw.homes.registry hv hr' hmem'
  have hown := hw.filled.own hr
  have hown' := hw.filled.own hr'
  rw [hg] at hown
  rw [hg'] at hown'
  have hcls : r.cls = r'.cls := by
    rcases hw.lineages.comparable hmem hmem' with heq | hbelow | hbelow
    · exact heq
    · have hnone := hu v r'.cls r.cls (hw.homes.upward hv hmem') (by rw [hown']; rfl) hbelow
      rw [hown] at hnone
      cases hnone
    · have hnone := hu v r.cls r'.cls (hw.homes.upward hv hmem) (by rw [hown]; rfl) hbelow
      rw [hown'] at hnone
      cases hnone
  obtain ⟨rfl, rfl⟩ := hw.orderly.once hr hr' hcls
  exact ⟨rfl, rfl, hr.unique hr'⟩

/-- What patching replaced are no copies. -/
theorem Sound.not_copied_unpatched (hw : w.Sound) (hu : w.Unstacked) (hr : w.Resolves g i r)
    {k : Nat} {o : CellRef} (hk : (w.tables.get r.unpatched)[k]? = some o) : ¬ w.Copied o := by
  rintro ⟨g', i', r', j, hr', hj⟩
  obtain ⟨hmem, rfl⟩ := (hw.tabled.unpatched hr).copies hk hr' hj
  obtain ⟨-, -, rfl⟩ := hw.patched_once hu (hw.orderly.live hr) hr hr'
    (w.mem_lineage_self r.cls) hmem
  exact hw.tabled.apart hr (List.mem_of_getElem? hk) (List.mem_of_getElem? hj)

theorem Sound.isTrampoline_unpatched (hw : w.Sound) (hu : w.Unstacked) (hr : w.Resolves g i r)
    {k : Nat} {o : CellRef} (hk : (w.tables.get r.unpatched)[k]? = some o) :
    (w.content o).isTrampoline = false := by
  cases h : (w.content o).isTrampoline with
  | false => rfl
  | true => exact absurd (hw.tabled.copied h) (hw.not_copied_unpatched hu hr hk)

/-! ### Copies and their originals -/

/-- Every copy is related to what it is a copy of. -/
structure EachCopy (P : Row → Descriptor β → CellRef → Descriptor β → Prop) (w : World β) :
    Prop where
  related : ∀ {g i r} {k : Nat} {m o : CellRef}, w.Resolves g i r →
    (w.tables.get r.intercepted)[k]? = some m → (w.tables.get r.unpatched)[k]? = some o →
    P (w.entry g i).row (w.content m) o (w.content o)

section EachCopy

variable {P : Row → Descriptor β → CellRef → Descriptor β → Prop}

theorem EachCopy.empty : EachCopy P ({} : World β) :=
  ⟨fun hr => absurd hr.live (Nat.not_lt_zero _)⟩

theorem Fits.live_of_mem {t : TableRef} (h : w.Fits c t) {k : Nat} {m : CellRef}
    (hk : (w.tables.get t)[k]? = some m) : w.cells.Live m := (h.cells hk).1

/-- Where cells keep what they hold, so do the copies of entries that were filled in before and
what they are copies of. -/
theorem Tabled.copy_kept (ht : w.Tabled) (hg : w.Grows w') (hcells : w.cells.Keeps w'.cells)
    (hr : w.Resolves g i r) {k : Nat} {m o : CellRef}
    (hm : (w'.tables.get r.intercepted)[k]? = some m)
    (ho : (w'.tables.get r.unpatched)[k]? = some o) :
    (w.tables.get r.intercepted)[k]? = some m ∧ (w.tables.get r.unpatched)[k]? = some o ∧
      (w'.entry g i).row = (w.entry g i).row ∧ w'.content m = w.content m ∧
      w'.content o = w.content o := by
  rw [hg.table_intercepted ht hr] at hm
  rw [hg.table_unpatched ht hr] at ho
  exact ⟨hm, ho, hg.rows g i hr.live, (hcells m ((ht.intercepted hr).live_of_mem hm)).2,
    (hcells o ((ht.unpatched hr).live_of_mem ho)).2⟩

/-- They stay related. -/
theorem EachCopy.kept (h : EachCopy P w) (ht : w.Tabled) (hg : w.Grows w')
    (hcells : w.cells.Keeps w'.cells) (hr : w.Resolves g i r) {k : Nat} {m o : CellRef}
    (hm : (w'.tables.get r.intercepted)[k]? = some m)
    (ho : (w'.tables.get r.unpatched)[k]? = some o) :
    P (w'.entry g i).row (w'.content m) o (w'.content o) := by
  obtain ⟨hm', ho', hrow, hcopy, horiginal⟩ := ht.copy_kept hg hcells hr hm ho
  rw [hrow, hcopy, horiginal]
  exact h.related hr hm' ho'

theorem EachCopy.of_keeps (h : EachCopy P w) (ht : w.Tabled) (hg : w.Grows w')
    (hcells : w.cells.Keeps w'.cells)
    (hres : ∀ {g i r}, w'.Resolves g i r → w.Resolves g i r) : EachCopy P w' :=
  ⟨fun hr hm ho => h.kept ht hg hcells (hres hr) hm ho⟩

/-- What patching copies. -/
theorem content_installed (ht : w.Tabled) (hc : w.classes.Live c) {handler : ClassRef}
    {offset : Nat} (hg : w.registries.Live g) {k : Nat} {m o : CellRef}
    (hm : ((w.installTrampolines g i c handler offset).tables.get
      (w.patchOf c handler offset).intercepted)[k]? = some m)
    (ho : ((w.installTrampolines g i c handler offset).tables.get
      (w.patchOf c handler offset).unpatched)[k]? = some o) :
    (w.installTrampolines g i c handler offset).content m =
      ((w.installTrampolines g i c handler offset).entry g i).row.copyOf
        ((w.installTrampolines g i c handler offset).content o) o := by
  have hext := extends_installTrampolines w g i handler offset (Nat.zero_le c.index)
  have hfits := ht.current c hc
  have hlive : ∀ m ∈ w.tableOf c, w.cells.Live m := fun m hm => by
    obtain ⟨k, hk⟩ := List.mem_iff_getElem?.mp hm
    exact hfits.live_of_mem hk
  have hunpatched : (w.installTrampolines g i c handler offset).tables.get
      (w.patchOf c handler offset).unpatched = w.tableOf c := (hext.grows.tables _ hfits.live).2
  rw [hunpatched] at ho
  obtain ⟨-, rfl⟩ := installed_getElem?.mp hm
  rw [content_copy hlive ho, hext.content (hfits.live_of_mem ho), hext.grows.rows g i hg]

variable (hP : ∀ (row : Row) (d : Descriptor β) (o : CellRef), P row (row.copyOf d o) o d)
include hP

/-- Patching relates the copies it makes. -/
theorem EachCopy.installTrampolines (h : EachCopy P w) (ht : w.Tabled) (hc : w.classes.Live c)
    {handler : ClassRef} {offset : Nat} (hg : w.registries.Live g) :
    EachCopy P (w.installTrampolines g i c handler offset) := by
  refine ⟨fun {g' j r k m o} hr hm ho => ?_⟩
  have hext := extends_installTrampolines w g i handler offset (Nat.zero_le c.index)
  rcases resolves_installTrampolines hr with hold | ⟨rfl, rfl, rfl⟩
  · exact h.kept ht hext.grows hext.cells hold hm ho
  · rw [content_installed ht hc hg hm ho]
    exact hP _ _ o

theorem EachCopy.enroll (h : EachCopy P w) (hl : w.Lineages) (ho : w.Orderly) (ht : w.Tabled)
    (hn : w.Newcomer v c) : EachCopy P (w.enroll v c) := by
  have hp := patches_patch w v (w.coreOf v) c
  obtain ⟨hpatched, -⟩ := ht.patch hl ho hn.live (v := v) (w.coreOf v)
  have hext := extends_patched w v c
  have hres : ∀ {g i r}, (w.enroll v c).Resolves g i r →
      (w.patch v (w.coreOf v) c).2.Resolves g i r := fun hr => hr
  generalize (w.patch v (w.coreOf v) c).2 = x at hp hpatched hext hres
  have hx : EachCopy P x := by
    cases hp with
    | nothing => exact h
    | installs hi _ _ _ => exact h.installTrampolines hP ht hn.live (Orderly.registry_live hi)
  exact hx.of_keeps hpatched hext.grows hext.cells hres

theorem EachCopy.define (h : EachCopy P w) (hw : w.Sound) {d : ClassDecl β}
    (hd : w.define v d = .ok (c, w')) : EachCopy P w' := by
  refine hw.define_induct hd (fun {s} _ => ?_) fun ho hl ht hn hx => hx.enroll hP hl ho ht hn
  have hext := extends_link 0 w d (w.vms.get v).classes.next (some s)
  exact h.of_keeps hw.tabled hext.grows hext.cells fun hr => hr

omit hP in
theorem EachCopy.newRegistry (h : EachCopy P w) (hw : w.Sound) (rows : List Row) :
    EachCopy P (w.newRegistry rows).2 :=
  h.of_keeps hw.tabled (extends_newRegistry 0 w rows).grows (.refl _) resolves_newRegistry

theorem EachCopy.newVmAround (h : EachCopy P w) (hw : w.Sound) (options : VmOptions)
    (core : Core) : EachCopy P (w.newVmAround options core).2 := by
  have hbare := extends_bareMachine 0 w options core
  exact hw.newVmAround_keeps options core
    (h.of_keeps hw.tabled hbare.grows hbare.cells fun hr => hr)
    fun ho hl ht hn hx => hx.enroll hP hl ho ht hn

end EachCopy

/-- A copy is what it is a copy of, and one that is listed stands for it whenever it is a
trampoline. -/
def Stands (row : Row) (copy : Descriptor β) (o : CellRef) (original : Descriptor β) : Prop :=
  if row.intercepts original.name then
    copy.isTrampoline = true → copy = original.toTrampoline o
  else copy = original

theorem stands_copyOf (row : Row) (d : Descriptor β) (o : CellRef) :
    Stands row (row.copyOf d o) o d := by
  rw [Stands, Row.copyOf]
  by_cases h : row.intercepts d.name = true
  · rw [if_pos h, if_pos h]
    exact fun _ => rfl
  · rw [if_neg h, if_neg h]

/-- All copies are. -/
abbrev Faithful (w : World β) : Prop := EachCopy Stands w

/-! ### Windows -/

/-- A trampoline is listed in its row, and stands for what it replaced. -/
theorem Faithful.of_isTrampoline (h : w.Faithful) (hw : w.Sound) (hu : w.Unstacked)
    {m : CellRef} (hm : (w.content m).isTrampoline = true) {g : RegistryRef} {i : Nat}
    {r : Resolution} (hr : w.Resolves g i r) {k : Nat} {o : CellRef}
    (hmk : (w.tables.get r.intercepted)[k]? = some m)
    (hok : (w.tables.get r.unpatched)[k]? = some o) :
    (w.entry g i).row.intercepts (w.content o).name = true ∧
      w.content m = (w.content o).toTrampoline o := by
  have hstands : Stands _ _ o _ := h.related hr hmk hok
  rw [Stands] at hstands
  split at hstands
  · rename_i hlisted
    exact ⟨hlisted, hstands hm⟩
  · rw [hstands, hw.isTrampoline_unpatched hu hr hok] at hm
    cases hm

/-- A step that writes into one copy of something listed, and writes no trampoline but the
one for what the copy replaced. -/
theorem Faithful.of_writes (h : w.Faithful) (hw : w.Sound) (hu : w.Unstacked)
    (hturns : w.Turns w') {m : CellRef} (hothers : ∀ n, n ≠ m → w'.content n = w.content n)
    (hm : ∀ {g i r} {k : Nat} {o : CellRef}, w.Resolves g i r →
      (w.tables.get r.intercepted)[k]? = some m → (w.tables.get r.unpatched)[k]? = some o →
      (w.entry g i).row.intercepts (w.content o).name = true ∧
      ((w'.content m).isTrampoline = true → w'.content m = (w.content o).toTrampoline o)) :
    w'.Faithful := by
  refine ⟨fun {g i r k n o} hr' hn ho => ?_⟩
  have hr := hturns.resolves hr'
  rw [hturns.grows.table_intercepted hw.tabled hr] at hn
  rw [hturns.grows.table_unpatched hw.tabled hr] at ho
  have horiginal : w'.content o = w.content o :=
    hturns.plain o (hw.not_copied_unpatched hu hr ho)
  rw [hturns.grows.rows g i hr.live, horiginal]
  by_cases hnm : n = m
  · subst hnm
    obtain ⟨hlisted, htrue⟩ := hm hr hn ho
    rw [Stands, if_pos hlisted]
    exact htrue
  · rw [hothers n hnm]
    exact h.related hr hn ho

section Windows

variable {t : Thread} {core : Core} {o : ObjectRef} {m : CellRef}

/-- Inside a class-wide window the trampoline is none, if its position is one of the
receiver's class, and itself otherwise. -/
theorem content_disarm_or (hw : w.Sound) (hu : w.Unstacked) (hr : w.Resolves g i r)
    (hm : w.cells.Live m) : ((w.disarm r m).content m).isTrampoline = false ∨
      (w.disarm r m).content m = w.content m := by
  cases hplain : (w.tables.get r.unpatched)[(w.content m).slot]? with
  | some plain =>
    rw [content_disarm_self hm hplain]
    exact Or.inl (hw.isTrampoline_unpatched hu hr hplain)
  | none => exact Or.inr (by simp only [disarm, hplain, content_install])

theorem Faithful.openWindow (h : w.Faithful) (hw : w.Sound) (hu : w.Unstacked)
    (hm : (w.content m).isTrampoline = true) : (w.openWindow t v core o m).2.1.Faithful := by
  have hturns : w.Turns (w.openWindow t v core o m).2.1 := hw.turns_openWindow hm
  have hopens := opens_openWindow w t v core o m
  generalize w.openWindow t v core o m = x at hopens hturns ⊢
  cases hopens with
  | passthrough _ => exact h
  | perCall _ _ _ =>
    exact h.of_keeps hw.tabled hturns.grows (.refl _) hturns.resolves
  | @classWide i r _ hr _ =>
    have hres := (interceptionOf_eq_some.mp hr).2.1
    refine h.of_writes hw hu hturns (m := m) (fun n hn => content_disarm_of_ne hn)
      fun hr' hmk hok => ?_
    obtain ⟨hlisted, htrue⟩ := h.of_isTrampoline hw hu hm hr' hmk hok
    refine ⟨hlisted, fun htramp => ?_⟩
    have hinside : ((w.disarm r m).content m).isTrampoline = true := htramp
    rcases content_disarm_or hw hu hres ((hw.tabled.copied hm).live hw.tabled) with hno | hsame
    · rw [hno] at hinside
      cases hinside
    · show (w.disarm r m).content m = _
      rw [hsame]
      exact htrue

/-- Closing a window gives the trampoline back what it held. -/
theorem Faithful.closeWindow (h : w.Faithful) (hw : w.Sound) (hu : w.Unstacked)
    (hm : (w.content m).isTrampoline = true) {x : World β} (hf : x.Faithful) (hx : x.Sound)
    (hux : x.Unstacked) (htends : w.Tends x) (u : Thread) :
    (x.closeWindow u (w.openWindow t v core o m).1).1.Faithful := by
  have hturns : x.Turns (x.closeWindow u (w.openWindow t v core o m).1).1 :=
    hw.turns_closeWindow hm hx htends.grows u
  have hopens := opens_openWindow w t v core o m
  generalize w.openWindow t v core o m = y at hopens hturns ⊢
  cases hopens with
  | passthrough _ => exact hf
  | perCall _ _ _ =>
    exact hf.of_keeps hx.tabled hturns.grows (.refl _) hturns.resolves
  | @classWide i r _ hr _ =>
    have hres : x.Resolves core.registry i r :=
      htends.grows.resolved (interceptionOf_eq_some.mp hr).2.1
    have hlive : w.cells.Live m := (hw.tabled.copied hm).live hw.tabled
    rw [closeWindow_classWide x u _ _ _ _ hres] at hturns ⊢
    refine hf.of_writes hx hux hturns (m := m) (fun n hn => content_rearm_of_ne hn _)
      fun {g' i' r' k n} hr' hmk hok => ?_
    -- What the trampoline is a copy of was there when the window was opened.
    have hold := htends.copies hlive hr' hmk
    rw [htends.grows.table_intercepted hw.tabled hold] at hmk
    rw [htends.grows.table_unpatched hw.tabled hold] at hok
    have hsame := htends.plain n ((hw.tabled.unpatched hold).cells hok).1
      (hw.not_copied_unpatched hu hold hok)
    obtain ⟨hlisted, htrue⟩ := h.of_isTrampoline hw hu hm hold hmk hok
    have hback : ((x.rearm r m (w.content m)).modifyEntry core.registry i
        Entry.windowClosed).content m = w.content m :=
      content_rearm_self (htends.grows.cells m hlive) r _
    rw [htends.grows.rows g' i' hold.live, hsame, hback]
    exact ⟨hlisted, fun _ => htrue⟩

end Windows

end World

/-! ### Every moment -/

/-- Where rows are not stacked, ordinary runs keep trampolines true to their originals. -/
theorem upheld_faithful : Upheld (β := β) (fun op => op.IsOrdinary = true)
    (fun w => w.Unstacked → w.Faithful) (fun _ _ => True) where
  ordinary h := h
  start _ := World.EachCopy.empty
  refl := trivial
  trans _ _ _ _ _ _ := trivial
  registry {w} rows hw h := by
    have hgrows := (World.extends_newRegistry 0 w rows).grows
    exact ⟨fun hu => (h (hu.of_grows hw hgrows)).newRegistry hw rows, trivial⟩
  machine {w} options core hw h := by
    have hgrows := (World.extends_newVmAround w options core).grows
    exact ⟨fun hu => (h (hu.of_grows hw hgrows)).newVmAround World.stands_copyOf hw options core,
      trivial⟩
  define hw h hd := by
    have hgrows := (World.extends_define hd).grows
    exact ⟨fun hu => (h (hu.of_grows hw hgrows)).define World.stands_copyOf hw hd, trivial⟩
  objects hw h hstep := by
    have honly := hstep.onlyObjects
    have hext := honly.toExtends 0
    exact ⟨fun hu => (h (hu.of_grows hw hext.grows)).of_keeps hw.tabled hext.grows hext.cells
      honly.turns.resolves, trivial⟩
  opening {w th v this m _} hw h hm _ := by
    have hopen : w.Turns (w.openWindow th v (w.coreOf v) this m).2.1 := hw.turns_openWindow hm
    refine ⟨fun hu => ?_, trivial⟩
    have hu₀ := hu.of_grows hw hopen.grows
    exact (h hu₀).openWindow hw hu₀ hm
  closing {w x th v this m _ u} hw h hm _ hx hxf htends _ := by
    have hclose : x.Turns (x.closeWindow u (w.openWindow th v (w.coreOf v) this m).1).1 :=
      hw.turns_closeWindow hm hx htends.grows u
    refine ⟨fun hu => ?_, trivial⟩
    have hux := hu.of_grows hx hclose.grows
    have hu₀ := hux.of_grows hw htends.grows
    exact (h hu₀).closeWindow hw hu₀ hm (hxf hux) hx hux htends u

theorem kept_faithful : Kept (β := β) (fun op => op.IsOrdinary = true) (fun _ _ _ _ => True)
    (fun t => t.world.Sound ∧ (t.world.Unstacked → t.world.Faithful))
    (fun t u => t.world.Sound ∧ t.world.Tends u.world) :=
  upheld_faithful.keeps

/-- At every moment of a run of ordinary bodies a trampoline is its original routed to
interception, if no class with a row has a proper superclass with one. -/
theorem Reached.faithful {host : Host β H} {s : State β (Logged β H)}
    (hb : ∀ b v this args, (host.body b v this args).Uses fun op => op.IsOrdinary = true)
    (hs : Reached host (fun op => op.IsOrdinary = true) s) {w : World β} {th : Thread}
    (hat : s.trail.At w th) : w.Sound ∧ (w.Unstacked → w.Faithful) :=
  upheld_faithful.everywhere hb hs hat

end Interception
