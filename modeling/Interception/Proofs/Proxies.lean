/-
Instances directly below the proxy base.

A direct subclass of a machine's proxy base is a class like any other to the hook that patches
classes and to the hook that binds handlers: if a row names it, it gets trampolines, and its
instances get handlers, in the field of the base.  Only opening a window makes an exception of
it, and so a call through one of its trampolines enters the handler without a window around it.

A method that no row resolved for the class lists is called as declared, whatever the field
holds.  A method that one lists is called as declared as long as the field holds no object.  If
it holds one, that is entered instead, and as there is no window, a handler that calls through
comes back to the trampoline and to itself until calls are nested too deeply.

What the trampolines of such a class stand for are cells of its own, for neither the base nor
what is above it declares a method.  Cells that patching did not make are never written, so
copies of them are right whenever nothing runs, even if classes are defined inside class-wide
windows.
-/
import Interception.Proofs.Agreement
import Interception.Proofs.Returns
import Interception.Proofs.Stacking

namespace Interception

variable {β H : Type}

namespace World

variable {w w' x : World β} {v : VmRef} {c : ClassRef} {g : RegistryRef} {i k : Nat}
  {r : Resolution} {m t o : CellRef} {this handler : ObjectRef} {name : String}

/-! ### Copies of cells that are never written -/

/-- Every copy of a cell that is no copy itself is what patching made it. -/
structure ExactPlain (w : World β) : Prop where
  copies : ∀ {g i r} {k : Nat} {m o : CellRef}, w.Resolves g i r →
    (w.tables.get r.intercepted)[k]? = some m → (w.tables.get r.unpatched)[k]? = some o →
    ¬ w.Copied o → w.content m = (w.entry g i).row.copyOf (w.content o) o

/-- Every such copy made since is. -/
structure CopiesPlain (w w' : World β) : Prop where
  copies : ∀ {g i r} {k : Nat} {m o : CellRef}, w'.Resolves g i r → ¬ w.classes.Live r.cls →
    (w'.tables.get r.intercepted)[k]? = some m → (w'.tables.get r.unpatched)[k]? = some o →
    ¬ w'.Copied o → w'.content m = (w'.entry g i).row.copyOf (w'.content o) o

theorem Equips.copiesPlain (h : w.Equips w') : w.CopiesPlain w' where
  copies hr hnew hm ho _ := h.copies hr hnew hm ho

/-- The copies that were there before stay exact where cells keep what they hold. -/
theorem ExactPlain.of_copiesPlain (h : w.ExactPlain) (hw : w.Sound) (hg : w.Grows w')
    (hcells : w.cells.Keeps w'.cells)
    (hnewly : ∀ {g i r}, w'.Resolves g i r → w.classes.Live r.cls → w.Resolves g i r)
    (hnew : w.CopiesPlain w') : w'.ExactPlain where
  copies {g i r k m o} hr hm ho hplain := by
    by_cases hold : w.classes.Live r.cls
    · have hr' := hnewly hr hold
      obtain ⟨hm', ho', hrow, hcopy, horiginal⟩ := hw.tabled.copy_kept hg hcells hr' hm ho
      rw [hrow, hcopy, horiginal]
      exact h.copies hr' hm' ho' fun hc => hplain (hc.of_grows hw.tabled hg)
    · exact hnew.copies hr hold hm ho hplain

/-- What extends a world fills in entries for new classes only. -/
theorem Extends.newly_live (h : Extends w.classes.size w w') (hr : w'.Resolves g i r)
    (hlive : w.classes.Live r.cls) : w.Resolves g i r :=
  (h.newly hr).resolve_right (Nat.not_le.mpr hlive)

end World

open World (CopiesPlain ExactPlain)

namespace Settles

variable {t u x : Trail β}

theorem keeps (h : Settles t u) : t.world.cells.Keeps u.world.cells :=
  fun m hm => ⟨h.grows.cells m hm, h.contents m hm⟩

theorem copiesPlain_trans (h' : Settles u x) (hu : u.world.Sound)
    (hplain : CopiesPlain t.world u.world) (hplain' : CopiesPlain u.world x.world) :
    CopiesPlain t.world x.world where
  copies {g i r k m o} hr hnew hm ho hcopied := by
    by_cases hold : u.world.classes.Live r.cls
    · have hr' := h'.newly hr hold
      obtain ⟨hm', ho', hrow, hcopy, horiginal⟩ :=
        hu.tabled.copy_kept h'.grows h'.keeps hr' hm ho
      rw [hrow, hcopy, horiginal]
      exact hplain.copies hr' hnew hm' ho' fun hc => hcopied (hc.of_grows hu.tabled h'.grows)
    · exact hplain'.copies hr hold hm ho hcopied

end Settles

/-- A window writes into its trampoline, which is a copy that was there before. -/
theorem World.CopiesPlain.window {t u : Trail β} {v : VmRef} {n : CellRef} {this : ObjectRef}
    (ht : t.world.Sound) (hn : (t.world.content n).isTrampoline = true) (hu : u.world.Sound)
    (htends : (t.begin v (t.world.coreOf v) this n).world.Tends u.world)
    (h : CopiesPlain (t.begin v (t.world.coreOf v) this n).world u.world) :
    CopiesPlain t.world (u.finish (t.guardFor v (t.world.coreOf v) this n)).world where
  copies {g i r k m o} hr hnew hm ho hplain := by
    have hopen := World.shifts_openWindow t.world t.thread v (t.world.coreOf v) this n
    have hclose : u.world.Shifts (u.finish (t.guardFor v (t.world.coreOf v) this n)).world :=
      World.shifts_closeWindow u.world u.thread _
    obtain ⟨-, -, hinside⟩ := tends_window ht hn v this
    obtain ⟨hwhole, hafter⟩ := hinside u hu htends
    have hcopied : t.world.Copied n := ht.tabled.copied hn
    have hcontent : ∀ q, q ≠ n → (u.finish (t.guardFor v (t.world.coreOf v) this n)).world.content
        q = u.world.content q := fun q hq =>
      World.content_closeWindow_of_ne (by rwa [trampoline_guardFor])
    have hr' : u.world.Resolves g i r := hclose.resolves.mp hr
    have hm' : (u.world.tables.get r.intercepted)[k]? = some m := by
      rw [← hclose.tables]
      exact hm
    have ho' : (u.world.tables.get r.unpatched)[k]? = some o := by
      rw [← hclose.tables]
      exact ho
    have hplain' : ¬ u.world.Copied o := fun hc => hplain (hc.of_grows hu.tabled hafter.grows)
    have hmn : m ≠ n := by
      rintro rfl
      exact hnew (ht.orderly.live (hwhole.copies (hcopied.live ht.tabled) hr' hm'))
    have hon : o ≠ n := by
      rintro rfl
      exact hplain' (hcopied.of_grows ht.tabled hwhole.grows)
    rw [hcontent m hmn, hcontent o hon, (hclose.entries g i).1]
    exact h.copies hr' (fun hlive => hnew ((hopen.liveClasses _).mp hlive)) hm' ho' hplain'

/-- Every piece of an ordinary run makes such copies right. -/
theorem kept_copiesPlain : Kept (β := β) (fun op => op.IsOrdinary = true) (fun _ _ _ _ => True)
    (fun t => t.world.Sound)
    (fun t u => (t.world.Sound ∧ t.world.Tends u.world) ∧ Settles t u ∧
      CopiesPlain t.world u.world) where
  ordinary h := h
  refl ht := ⟨kept_sound.refl ht, .refl ht.orderly,
    (World.Equips.of_resolves ht.orderly id).copiesPlain⟩
  trans hu hx h h' := ⟨kept_sound.trans hu hx h.1 h'.1, h.2.1.trans hx.orderly h'.2.1,
    h'.2.1.copiesPlain_trans hu h.2.2 h'.2.2⟩
  note he ht := by
    have h := kept_sound.note he ht
    exact ⟨h.inv, h.rel, .note ht.orderly he, (World.Equips.of_resolves ht.orderly id).copiesPlain⟩
  define ha ht hd := by
    have h := kept_sound.define ha ht hd
    exact ⟨h.inv, h.rel, .define ht.orderly hd, (World.Equips.define ht hd).copiesPlain⟩
  allocate {t v c} ha ht := by
    have honly := World.onlyObjects_allocate t.world v c
    have h := kept_sound.allocate (t := t) (v := v) (c := c) ha ht
    exact ⟨h.inv, h.rel, .of_onlyObjects ht.orderly honly,
      (World.Equips.of_resolves ht.orderly honly.turns.resolves).copiesPlain⟩
  setField ha ht hf := by
    have honly := World.onlyObjects_setField hf
    have h := kept_sound.setField ha ht hf
    exact ⟨h.inv, h.rel, .of_onlyObjects ht.orderly honly,
      (World.Equips.of_resolves ht.orderly honly.turns.resolves).copiesPlain⟩
  frame _ ht _ _ := ⟨ht, fun _ hu h => ⟨hu, h.1, h.2.1.frame, h.2.2⟩⟩
  window ht hmay he hr hw hh := by
    obtain ⟨hin, hout⟩ := kept_sound.window ht hmay he hr hw hh
    refine ⟨hin, fun u hu h => ?_⟩
    have hclosed := hout u hu h.1
    exact ⟨hclosed.inv, hclosed.rel, h.2.1.window ht.orderly,
      .window ht (Descriptor.isTrampoline_of_replaced? hr) hu h.1.2 h.2.2⟩
  slot _ _ := trivial
  direct _ _ _ := trivial
  method _ _ _ _ := trivial
  execute _ _ := trivial
  replaced _ _ _ _ := trivial

/-! ### Where calls find what patching made -/

/-- Patched classes have their tables, and in them copies as patching made them of cells that it
did not make. -/
structure World.Ready (w : World β) : Prop where
  armed : w.Armed
  exact : w.ExactPlain

/-- A class that was patched since has its table, and one that was patched before keeps it. -/
theorem World.Armed.of_equips {w w' : World β} (h : w.Armed) (hnew : w.Equips w')
    (hnewly : ∀ {g i r}, w'.Resolves g i r → w.classes.Live r.cls → w.Resolves g i r)
    (hkept : ∀ c, w.classes.Live c → (w'.classes.get c).table = (w.classes.get c).table) :
    w'.Armed := fun g i r hr => by
  by_cases hold : w.classes.Live r.cls
  · rw [hkept r.cls hold]
    exact h g i r (hnewly hr hold)
  · exact hnew.table hr hold

/-- On machines that work per call patched classes have their tables at every moment. -/
theorem upheld_armed : Upheld (β := β) (fun op => op.IsOrdinary = true)
    (fun w => w.PerCall → w.Armed) (fun _ _ => True) := by
  have hextend : ∀ {w w' : World β}, w.Sound → (w.PerCall → w.Armed) →
      World.Extends w.classes.size w w' → w.Equips w' → w'.PerCall → w'.Armed :=
    fun {w w'} hw h hext hequips hp => (h (hext.grows.perCall hp)).of_equips hequips
      hext.newly_live fun c hc => by rw [hext.classes c hc hc]
  exact
    { ordinary := id
      start := fun _ g i r hr => absurd hr.live (Nat.not_lt_zero _)
      refl := trivial
      trans := fun _ _ _ _ _ _ => trivial
      registry := fun {w} rows hw h => ⟨hextend hw h (World.extends_newRegistry _ w rows)
        (.of_resolves hw.orderly World.resolves_newRegistry), trivial⟩
      machine := fun {w} options core hw h => ⟨hextend hw h
        (World.extends_newVmAround w options core) (.newVmAround hw options core), trivial⟩
      define := fun hw h hd => ⟨hextend hw h (World.extends_define hd) (.define hw hd), trivial⟩
      objects := fun {w w'} hw h hstep => ⟨hextend hw h (hstep.onlyObjects.toExtends _)
        (.of_resolves hw.orderly hstep.onlyObjects.turns.resolves), trivial⟩
      opening := fun {w th v this m _} hw h _ _ => by
        have hopen := World.preserves_openWindow w th v this m
        have hshift := World.shifts_openWindow w th v (w.coreOf v) this m
        refine ⟨fun hp => (h (hopen.grows.perCall hp)).of_equips
          (.of_resolves hw.orderly hshift.resolves.mp) (fun hr _ => hshift.resolves.mp hr)
          fun c hc => ?_, trivial⟩
        rw [(hopen.classes hp c hc).2]
      closing := fun {w x th v this m _ u} _ _ _ hh hx h htends _ => by
        have hclose := preserves_close hh htends.grows th u m
        have hshift := World.shifts_closeWindow x u (w.openWindow th v (w.coreOf v) this m).1
        refine ⟨fun hp => (h (hclose.grows.perCall hp)).of_equips
          (.of_resolves hx.orderly hshift.resolves.mp) (fun hr _ => hshift.resolves.mp hr)
          fun c hc => ?_, trivial⟩
        rw [(hclose.classes hp c hc).2] }

section Reached

variable {host : Host β H} {s : State β (Logged β H)}

/-- Between runs copies of cells that patching did not make are right. -/
theorem Reached.exactPlain
    (hb : ∀ b v this args, (host.body b v this args).Uses fun op => op.IsOrdinary = true)
    (hs : Reached host (fun op => op.IsOrdinary = true) s) : s.world.ExactPlain := by
  have hsound : ∀ {s}, Reached host (fun op => op.IsOrdinary = true) s → s.world.Sound :=
    fun hs => hs.sound hb (State.at_present _)
  induction hs with
  | start h => exact ⟨fun hr => absurd hr.live (Nat.not_lt_zero _)⟩
  | @registry s hs rows ih =>
    have hext := World.extends_newRegistry s.world.classes.size s.world rows
    exact ih.of_copiesPlain (hsound hs) hext.grows hext.cells hext.newly_live
      (World.Equips.of_resolves (hsound hs).orderly World.resolves_newRegistry).copiesPlain
  | @machine s hs options core _ ih =>
    have hext := World.extends_newVmAround s.world options core
    exact ih.of_copiesPlain (hsound hs) hext.grows hext.cells hext.newly_live
      (World.Equips.newVmAround (hsound hs) options core).copiesPlain
  | @run s hs _ p hp ih =>
    have h := kept_copiesPlain.run host (kept_copiesPlain.runs_execute hb s.room) p hp s (hsound hs)
    exact ih.of_copiesPlain (hsound hs) h.rel.2.1.grows h.rel.2.1.keeps h.rel.2.1.newly h.rel.2.2

/-- Between runs, and on machines that work per call at every moment, calls find what patching
made. -/
theorem Reached.ready
    (hb : ∀ b v this args, (host.body b v this args).Uses fun op => op.IsOrdinary = true)
    (hs : Reached host (fun op => op.IsOrdinary = true) s) {w : World β} {th : Thread}
    (hat : s.trail.At w th) (hwhen : w = s.world ∨ w.PerCall) : w.Ready := by
  rcases hwhen with rfl | hp
  · exact ⟨hs.armed hb, hs.exactPlain hb⟩
  · obtain ⟨-, harmed⟩ := upheld_armed.everywhere hb hs hat
    have hexact := (hs.lasting hb).exact w hat.mem_worlds hp
    exact ⟨harmed hp, ⟨fun hr hm ho _ => hexact.related hr hm ho⟩⟩

end Reached

/-! ### The cells of a direct subclass -/

namespace World

variable {w : World β} {v : VmRef} {c : ClassRef} {g : RegistryRef} {i k : Nat} {r : Resolution}
  {m t o : CellRef} {name : String} {d : Descriptor β}

/-- What patching made for a class on its lineage it made for the class itself. -/
theorem DirectProxy.patched (h : w.DirectProxy v c) (hw : w.Sound) (hp : w.Methodless v)
    (hr : w.Resolves g i r) (hmem : r.cls ∈ w.lineage c)
    (hm : (w.tables.get r.intercepted)[k]? = some m) : r.cls = c := by
  rcases List.mem_cons.mp hmem with heq | habove
  · exact heq
  · have hproxy : r.cls ∈ w.lineage (w.vms.get v).proxy := by
      rw [← h.ancestors hw.lineages]
      exact habove
    obtain ⟨name, hname⟩ := (hw.tabled.intercepted hr).named (List.getElem?_eq_some_iff.mp hm).1
    have hslot : (w.slotOf r.cls name).isSome = true := by
      rw [hname]
      rfl
    obtain ⟨a, ha, hdeclares⟩ := (hw.lineages.slotted name (hw.orderly.live hr)).mp hslot
    rw [Declares, Class.declares,
      hp.declared (hw.lineages.mem_lineage_trans ha hproxy)] at hdeclares
    cases hdeclares

/-- A copy among the cells of such a class stands for a cell that is none, and that holds what is
declared. -/
theorem DirectProxy.copied (h : w.DirectProxy v c) (hw : w.Sound) (hp : w.Methodless v)
    (hc : w.classes.Live c) (hk : w.slotOf c name = some k) (ht : w.methodAt c k = some t)
    (hcopied : w.Copied t) : ∃ o g i r, w.CopyAt c k t o g i r ∧ r.cls = c ∧ ¬ w.Copied o ∧
      w.declared? c name k = some (w.content o) := by
  obtain ⟨o, g, i, r, hcopy⟩ := hw.copyAt hc ht hcopied
  have hcls := h.patched hw hp hcopy.resolves hcopy.above hcopy.copy
  have hfits := hw.tabled.unpatched hcopy.resolves
  have hplain : ¬ w.Copied o := by
    rintro ⟨g', i', r', j, hr', hj⟩
    obtain ⟨hmem, -⟩ := hfits.copies hcopy.original hr' hj
    rw [hcls] at hmem
    have hcls' := h.patched hw hp hr' hmem hj
    obtain ⟨rfl, rfl⟩ := hw.orderly.once hcopy.resolves hr' (hcls.trans hcls'.symm)
    obtain rfl := hcopy.resolves.unique hr'
    exact hw.tabled.apart hr' (List.mem_of_getElem? hcopy.original) (List.mem_of_getElem? hj)
  have hdeclared := hfits.plain hcopy.original hplain (by rw [hcls]; exact hk)
  rw [hcls] at hdeclared
  exact ⟨o, g, i, r, hcopy, hcls, hplain, hdeclared⟩

/-- A row was resolved for the class and lists the method. -/
def Lists (w : World β) (v : VmRef) (c : ClassRef) (name : String) : Prop :=
  ∃ i r, w.Resolves (w.coreOf v).registry i r ∧ r.cls = c ∧
    (w.entry (w.coreOf v).registry i).row.intercepts name = true

/-- **A cell of such a class holds the trampoline for what is declared if a row lists the method
for the class, and what is declared otherwise.** -/
theorem DirectProxy.cell (h : w.DirectProxy v c) (hw : w.Sound) (hready : w.Ready)
    (hp : w.Methodless v) (hc : w.Registered v c) (hk : w.slotOf c name = some k) :
    ∃ t d, w.methodAt c k = some t ∧ w.declared? c name k = some d ∧
      (¬ w.Lists v c name → w.content t = d) ∧
      (w.Lists v c name → ∃ o, w.content t = d.toTrampoline o ∧ w.content o = d) := by
  have hlive := hw.homes.live hc
  obtain ⟨t, ht⟩ := hw.methodAt hlive hk
  by_cases hcopied : w.Copied t
  · obtain ⟨o, g, i, r, hcopy, hcls, hplain, hdeclared⟩ := h.copied hw hp hlive hk ht hcopied
    have hexact := hready.exact.copies hcopy.resolves hcopy.copy hcopy.original hplain
    obtain rfl := hw.homes.registry hc hcopy.resolves hcopy.above
    rw [Row.copyOf, name_of_declared? hdeclared] at hexact
    refine ⟨t, w.content o, ht, hdeclared, fun hlists => ?_, ?_⟩
    · rw [hexact, if_neg fun hlisted => hlists ⟨i, r, hcopy.resolves, hcls, hlisted⟩]
    · rintro ⟨i', r', hr', hcls', hlisted⟩
      obtain ⟨-, rfl⟩ := hw.orderly.once hcopy.resolves hr' (hcls.trans hcls'.symm)
      exact ⟨o, by rw [hexact, if_pos hlisted], rfl⟩
  · refine ⟨t, w.content t, ht, hw.declared_plain hlive hk ht hcopied, fun _ => rfl, ?_⟩
    -- A class that a row was resolved for has a table of copies.
    rintro ⟨i, r, hr, rfl, -⟩
    refine absurd ⟨_, i, r, k, hr, ?_⟩ hcopied
    rw [← hready.armed _ i r hr]
    exact ht

end World

/-! ### Calls without a window -/

section Calls

variable {host : Host β H} {v : VmRef} {n l k : Nat} {this handler : ObjectRef}
  {args : List Value} {t o inv : CellRef} {d e : Descriptor β} {b : β} {name : String}
  {s : State β (Logged β H)}

/-- Without a handler a trampoline runs what it stands for. -/
theorem descends_unbound (hnone : s.world.handlerOf v (s.world.coreOf v) this = none)
    (ht : (s.world.content t).replaced? = some o) (ho : s.world.content o = d)
    (hd : s.thread.depth ≤ s.world.maxDepth v) (hn : s.world.maxDepth v ≤ s.thread.depth + n) :
    Descends host v n [⟨s.thread.depth + 1, v, t, this, args⟩,
      ⟨s.thread.depth + 2, v, o, this, args⟩] o d this args s
      (execute host.logged n v t this args s) := by
  refine .frame hd hn fun n' _ hlt => ?_
  rw [runCell_unbound host.logged _ ht hnone]
  exact Descends.frame (s := s.enter host.logged v t this args) hlt
    (by show s.world.maxDepth v ≤ s.thread.depth + 1 + n'; omega) fun _ _ hlt' => .here hlt' ho

/-- An object whose class directly extends the proxy base, with this handler, called through a
trampoline for what is declared. -/
structure World.Unwindowed (w : World β) (v : VmRef) (this handler : ObjectRef) (t : CellRef)
    (d : Descriptor β) : Prop where
  proxy : w.isProxyInstance v this = true
  handler : w.handlerOf v (w.coreOf v) this = some handler
  cell : ∃ o, w.content t = d.toTrampoline o
  receiver : w.derivesFrom (w.classOf this) d.owner = true

/-- Opening a window for it changes nothing. -/
theorem World.Unwindowed.openWindow {w : World β} (h : w.Unwindowed v this handler t d)
    (th : Thread) :
    ∃ guard : Guard β, w.openWindow th v (w.coreOf v) this t = (guard, w, th) := by
  rw [World.openWindow, if_pos h.proxy]
  exact ⟨_, rfl⟩

/-- It enters the handler in the second frame, with nothing changed. -/
theorem descends_unwindowed {path : List Frame} {cell : CellRef} {receiver : ObjectRef}
    {as : List Value} (h : s.world.Unwindowed v this handler t d)
    (hout : ¬ ((s.world.coreOf v).mode = .perCall ∧ s.thread.inWindow t this = true))
    (hslot : s.world.slotOf (s.world.classOf handler) handlerMethod = some l)
    (hinv : s.world.methodAt (s.world.classOf handler) l = some inv)
    (hd : s.thread.depth ≤ s.world.maxDepth v) (hn : s.world.maxDepth v ≤ s.thread.depth + n)
    (hinner : ∀ (n' : Nat) (u : State β (Logged β H)), u.world = s.world →
      u.thread = { s.thread with depth := s.thread.depth + 1 } →
      u.thread.depth ≤ u.world.maxDepth v → u.world.maxDepth v ≤ u.thread.depth + n' →
      Descends host v n' path cell e receiver as u
        (execute host.logged n' v inv handler (.object this :: .method t :: args) u)) :
    Descends host v n (⟨s.thread.depth + 1, v, t, this, args⟩ :: path) cell e receiver as s
      (execute host.logged n v t this args s) := by
  refine .frame hd hn fun n' hn' hlt => ?_
  obtain ⟨o, hcell⟩ := h.cell
  obtain ⟨guard, hopen⟩ := h.openWindow s.deepen.thread
  have hreplaced : (s.world.content t).replaced? = some o := congrArg Descriptor.replaced? hcell
  rw [runCell_handled host.logged _ hreplaced hout h.handler, invokeHandler_eq]
  generalize hu : (s.enter host.logged v t this args).begin host.logged v (s.world.coreOf v)
    this t = u
  have hworld : u.world = s.world := by
    rw [← hu]
    exact congrArg (fun x : Guard β × World β × Thread => x.2.1) hopen
  have hthread : u.thread = s.deepen.thread := by
    rw [← hu]
    exact congrArg (fun x : Guard β × World β × Thread => x.2.2) hopen
  have hframes : framesOf u.host.2 = framesOf (s.enter host.logged v t this args).host.2 := by
    rw [← hu]
    rfl
  have hcall : invokeVirtual (execute host.logged n') v handler handlerMethod
      (.object this :: .method t :: args) u =
      execute host.logged n' v inv handler (.object this :: .method t :: args) u :=
    invokeVirtual_eq (by rw [hworld]; exact hslot) (by rw [hworld]; exact hinv)
  have hdepth : u.thread.depth = s.thread.depth + 1 := by rw [hthread]; rfl
  rw [hcall]
  exact (hinner n' u hworld hthread (by rw [hworld, hdepth]; exact hlt)
    (by rw [hworld, hdepth]; omega)).around hdepth (congrArg (World.maxDepth · v) hworld)
    (congrArg World.objects hworld) hframes rfl rfl

/-- The handler is entered instead of what is declared. -/
theorem descends_entered (h : s.world.Unwindowed v this handler t d)
    (hout : ¬ ((s.world.coreOf v).mode = .perCall ∧ s.thread.inWindow t this = true))
    (hslot : s.world.slotOf (s.world.classOf handler) handlerMethod = some l)
    (hinv : s.world.methodAt (s.world.classOf handler) l = some inv)
    (hd : s.thread.depth ≤ s.world.maxDepth v) (hn : s.world.maxDepth v ≤ s.thread.depth + n) :
    Descends host v n [⟨s.thread.depth + 1, v, t, this, args⟩,
      ⟨s.thread.depth + 2, v, inv, handler, .object this :: .method t :: args⟩] inv
      (s.world.content inv) handler (.object this :: .method t :: args) s
      (execute host.logged n v t this args s) := by
  refine descends_unwindowed h hout hslot hinv hd hn fun n' u hworld hthread hud hun => ?_
  have hdepth : s.thread.depth + 2 = u.thread.depth + 1 := by rw [hthread]
  rw [hdepth]
  exact .frame hud hun fun _ _ hlt => .here hlt (congrArg (World.content · inv) hworld)

/-- **A handler that calls through comes back to the trampoline**, as often as frames are
admitted. -/
theorem descends_returning {w : World β} (h : w.Unwindowed v this handler t d)
    (hhandled : w.HandledBy (w.classOf handler) l inv b) (hb : host.CallsThrough b)
    (haccess : w.checkAccess v (some (w.classOf handler)) (w.content t) = .ok ()) (m : Nat)
    (hworld : s.world = w)
    (hout : ¬ ((w.coreOf v).mode = .perCall ∧ s.thread.inWindow t this = true))
    (hd : s.thread.depth ≤ w.maxDepth v) (hn : w.maxDepth v ≤ s.thread.depth + n) :
    Descends host v n (loopPath v this handler t inv args m s.thread.depth) t (w.content t) this
      args s (execute host.logged n v t this args s) := by
  induction m generalizing n s with
  | zero =>
    subst hworld
    exact .frame hd hn fun _ _ hlt => .here hlt rfl
  | succ m ih =>
    have hreceiver : w.checkReceiver this (w.content t) = .ok () := by
      obtain ⟨o, hcell⟩ := h.cell
      rw [World.checkReceiver, hcell, if_pos (show w.derivesFrom _ (d.toTrampoline o).owner = true
        from h.receiver)]
    subst hworld
    rw [loopPath]
    refine descends_unwindowed h hout hhandled.slot hhandled.cell hd hn
      fun n' u huworld huthread hud hun => ?_
    have hdepth : s.thread.depth + 2 = u.thread.depth + 1 := by rw [huthread]
    rw [hdepth]
    refine descends_handler (by rw [huworld]; exact hhandled.code) hb
      (by rw [huworld]; exact hreceiver) (by rw [huworld]; exact haccess) hud hun
      fun n'' x hn'' hlt hxworld hxthread => ?_
    have hxdepth : u.thread.depth + 1 = x.thread.depth := by rw [hxthread]
    rw [hxdepth]
    refine ih (hxworld.trans huworld) ?_ ?_ ?_
    · rintro ⟨hmode, hnoted⟩
      rw [Thread.inWindow, hxthread, huthread] at hnoted
      exact hout ⟨hmode, hnoted⟩
    · rw [← hxdepth, ← huworld]
      exact hlt
    · rw [← hxdepth, ← huworld]
      omega

/-- So the call overflows, between the trampoline and its handler. -/
theorem overflows_returning (h : s.world.Unwindowed v this handler t d)
    (hhandled : s.world.HandledBy (s.world.classOf handler) l inv b) (hb : host.CallsThrough b)
    (haccess : s.world.checkAccess v (some (s.world.classOf handler)) (s.world.content t) = .ok ())
    (hout : ¬ ((s.world.coreOf v).mode = .perCall ∧ s.thread.inWindow t this = true))
    (hd : s.thread.depth ≤ s.world.maxDepth v) (hn : s.world.maxDepth v ≤ s.thread.depth + n) :
    (execute host.logged n v t this args s).1 = .error (.stackOverflow (s.world.maxDepth v + 1)) ∧
      framesOf (execute host.logged n v t this args s).2.host.2 =
        ((loopPath v this handler t inv args (s.world.maxDepth v + 1) s.thread.depth).take
          (s.world.maxDepth v - s.thread.depth)).reverse ++ framesOf s.host.2 := by
  refine (descends_returning h hhandled hb haccess (s.world.maxDepth v + 1) rfl hout hd
    hn).beyond ?_
  rw [length_loopPath]
  omega

end Calls

/-! ### Every call -/

namespace World

variable {w : World β} {v : VmRef} {c : ClassRef} {this : ObjectRef}

/-- The handler in the field of the proxy base. -/
def baseHandler? (w : World β) (v : VmRef) (o : ObjectRef) : Option ObjectRef :=
  (w.field? o (w.vms.get v).proxyOffset).bind Value.asObject?

/-- For an instance directly below the base this is its handler. -/
theorem handlerOf_eq_baseHandler? (hproxy : w.isProxyInstance v this = true) (core : Core) :
    w.handlerOf v core this = w.baseHandler? v this := by
  rw [handlerOf, if_pos hproxy, baseHandler?]

/-- An allocation fills the field of the base if the class's nearest row was resolved for the class
that it names, and leaves it null otherwise. -/
theorem DirectProxy.allocated (h : w.DirectProxy v c) (hw : w.Sound) (ht : w.Titled)
    (hf : w.HandlersFirst) (hbased : w.Based) (hv : w.vms.Live v) (hc : w.classes.Live c) :
    ∃ x, w.allocate v c = (.value w.objects.next, x) ∧
      x.field? w.objects.next (x.vms.get v).proxyOffset =
        some (match w.assigned? (w.coreOf v).registry c with
          | none => .null
          | some _ => .object (w.upcoming 1)) := by
  obtain ⟨cs, hcs, hlength⟩ := HandlerChain.exists_of_live hw hf (w.coreOf v).registry hc
  obtain ⟨x, hx, -, hallocate⟩ := hcs.allocates hw ht hc hlength
  have honly : w.OnlyObjects (x.counted v) := by
    have honly' := onlyObjects_allocate w v c
    rwa [hallocate] at honly'
  have hfirst : cs[0]? = some c := by cases hcs <;> rfl
  refine ⟨x.counted v, hallocate, ?_⟩
  rw [(honly.alike v).proxyOffset, (hbased.base hv).offset]
  exact (hx.made hfirst).baseField h hw ht (hbased.base hv)

end World

/-- How a call on an instance directly below the proxy base goes that finds the cell `t` for what
is declared, `d`. -/
structure CallsDirect (host : Host β H) (v : VmRef) (n : Nat) (this : ObjectRef) (name : String)
    (args : List Value) (t : CellRef) (d : Descriptor β) (s : State β (Logged β H))
    (out : Ending Value × State β (Logged β H)) : Prop where
  /-- What no row lists is run as declared, and nothing else is. -/
  unlisted : ¬ s.world.Lists v (s.world.classOf this) name →
    Descends host v n [⟨s.thread.depth + 1, v, t, this, args⟩] t d this args s out
  /-- So is what a row lists, as long as the field of the base holds no object. -/
  unattended : s.world.Lists v (s.world.classOf this) name →
    ((s.world.coreOf v).mode = .perCall ∧ s.thread.inWindow t this = true) ∨
      s.world.baseHandler? v this = none →
    ∃ o, Descends host v n [⟨s.thread.depth + 1, v, t, this, args⟩,
      ⟨s.thread.depth + 2, v, o, this, args⟩] o d this args s out
  /-- An object there is entered instead of what is declared. -/
  attended : s.world.Lists v (s.world.classOf this) name →
    ¬ ((s.world.coreOf v).mode = .perCall ∧ s.thread.inWindow t this = true) →
    ∀ {handler l inv}, s.world.baseHandler? v this = some handler →
    s.world.slotOf (s.world.classOf handler) handlerMethod = some l →
    s.world.methodAt (s.world.classOf handler) l = some inv →
    Descends host v n [⟨s.thread.depth + 1, v, t, this, args⟩,
      ⟨s.thread.depth + 2, v, inv, handler, .object this :: .method t :: args⟩] inv
      (s.world.content inv) handler (.object this :: .method t :: args) s out
  /-- If it calls through, the call overflows without what is declared being run. -/
  returning : s.world.Lists v (s.world.classOf this) name →
    ¬ ((s.world.coreOf v).mode = .perCall ∧ s.thread.inWindow t this = true) →
    ∀ {handler l inv b}, s.world.baseHandler? v this = some handler →
    s.world.HandledBy (s.world.classOf handler) l inv b → host.CallsThrough b →
    s.world.checkAccess v (some (s.world.classOf handler)) d = .ok () →
    out.1 = .error (.stackOverflow (s.world.maxDepth v + 1)) ∧
      framesOf out.2.host.2 =
        ((loopPath v this handler t inv args (s.world.maxDepth v + 1) s.thread.depth).take
          (s.world.maxDepth v - s.thread.depth)).reverse ++ framesOf s.host.2

/-- **A row is not lost on a direct subclass of the proxy base.**  Between runs of ordinary bodies,
and on machines that work per call at every moment: an instance is allocated with the field of
the base null if the nearest row of its class was not resolved, and with a handler there if it was;
and a method is called as declared, once, if no row resolved for the class lists it or the field
holds no object, while a handler there is entered without a window, and if it calls through is
entered over and over. -/
theorem Reached.calls_direct {host : Host β H} {s : State β (Logged β H)}
    (hb : ∀ b v this args, (host.body b v this args).Uses fun op => op.IsOrdinary = true)
    (hs : Reached host (fun op => op.IsOrdinary = true) s) {w : World β} {th : Thread}
    (hat : s.trail.At w th) (hwhen : w = s.world ∨ w.PerCall) {v : VmRef} {c : ClassRef}
    (hc : w.Registered v c) (hdirect : w.DirectProxy v c) :
    (∃ x, w.allocate v c = (.value w.objects.next, x) ∧
      x.field? w.objects.next (x.vms.get v).proxyOffset =
        some (match w.assigned? (w.coreOf v).registry c with
          | none => .null
          | some _ => .object (w.upcoming 1))) ∧
    ∀ {this name k}, w.classOf this = c → w.slotOf c name = some k →
      ∃ t d, w.methodAt c k = some t ∧ w.declared? c name k = some d ∧
        ∀ args {n} (h : H) (log : List (Moment β)), th.depth ≤ w.maxDepth v →
          w.maxDepth v ≤ th.depth + n →
          CallsDirect host v n this name args t d ⟨w, th, (h, log)⟩
            (invokeVirtual (execute host.logged n) v this name args ⟨w, th, (h, log)⟩) := by
  obtain ⟨hw, htitled⟩ := Reached.titled hb hs hat
  obtain ⟨-, hfirst⟩ := upheld_handlersFirst.everywhere hb hs hat
  obtain ⟨-, hbased⟩ := upheld_based.everywhere hb hs hat
  have hready := hs.ready hb hat hwhen
  have hv := hc.live_vm
  refine ⟨hdirect.allocated hw htitled hfirst hbased hv (hw.homes.live hc), ?_⟩
  rintro this name k rfl hk
  obtain ⟨t, d, ht, hdeclared, hplain, hlisted⟩ :=
    hdirect.cell hw hready (hbased.base hv).toMethodless hc hk
  refine ⟨t, d, ht, hdeclared, fun args n h log hd hn => ?_⟩
  have hproxy : w.isProxyInstance v this = true := World.isProxyInstance_iff.mpr hdirect
  rw [invokeVirtual_eq (s := ⟨w, th, (h, log)⟩) hk ht]
  have hunwindowed : w.Lists v (w.classOf this) name → ∀ {handler},
      w.baseHandler? v this = some handler → w.Unwindowed v this handler t d :=
    fun hlists handler hhandler => by
      obtain ⟨o, hcell, -⟩ := hlisted hlists
      exact ⟨hproxy, (World.handlerOf_eq_baseHandler? hproxy _).trans hhandler, ⟨o, hcell⟩,
        World.derivesFrom_declared hdeclared⟩
  refine ⟨fun hlists => ?_, fun hlists hnone => ?_,
    fun hlists hout _ l inv hhandler hslot hinv => ?_,
    fun hlists hout handler l inv b hhandler hhandled hb' haccess => ?_⟩
  · exact descends_swapped (s := ⟨w, th, (h, log)⟩) (hplain hlists) hd hn
  · obtain ⟨o, hcell, horiginal⟩ := hlisted hlists
    have hreplaced : (w.content t).replaced? = some o := congrArg Descriptor.replaced? hcell
    refine ⟨o, ?_⟩
    rcases hnone with ⟨hmode, hnoted⟩ | hnone
    · exact descends_noted (s := ⟨w, th, (h, log)⟩) hmode hnoted hreplaced horiginal hd hn
    · exact descends_unbound (s := ⟨w, th, (h, log)⟩)
        ((World.handlerOf_eq_baseHandler? hproxy _).trans hnone) hreplaced horiginal hd hn
  · exact descends_entered (s := ⟨w, th, (h, log)⟩) (hunwindowed hlists hhandler) hout hslot hinv hd
      hn
  · obtain ⟨o, hcell, -⟩ := hlisted hlists
    have haccess' : w.checkAccess v (some (w.classOf handler)) (w.content t) = .ok () := by
      rw [hcell]
      exact haccess
    exact overflows_returning (s := ⟨w, th, (h, log)⟩) (hunwindowed hlists hhandler) hhandled hb'
      haccess' hout hd hn

/-! ### The demonstration -/

namespace Demo

/-- The name of a class directly below the proxy base. -/
def standInName : String := "App.StandIn"

def standInDecl : ClassDecl Body :=
  { name := standInName
    extends? := some proxyClassName
    virtuals := [{ name := methodName, body := some .onResume }] }

/-- Define the handler class and the class below the base, and allocate an instance of it. -/
def standingIn (v : VmRef) : Program Body Tally ObjectRef := do
  let _ ← Program.perform (.define v handlerDecl)
  let c ← Program.perform (.define v standInDecl)
  Program.perform (.allocate v c)

theorem uses_standingIn (v : VmRef) : (standingIn v).Uses fun op => op.IsOrdinary = true := by
  refine .bind (.perform rfl) fun _ => .bind (.perform rfl) fun c => ?_
  exact .perform rfl

/-- The state after that, where a row lists these methods for the class. -/
def stoodIn (methods : List String) (mode : SwapMode) : State Body (Logged Body Tally) :=
  ((standingIn ⟨0⟩).lift.start host.logged
    ⟨(World.newVm {} { rows := [⟨standInName, methods, handlerName⟩], mode, maxDepth := 32 }).2, {},
      ({}, [])⟩).2

theorem reached_stoodIn (methods : List String) (mode : SwapMode) :
    Reached host (fun op => op.IsOrdinary = true) (stoodIn methods mode) := by
  have hmachine : Reached host (fun op => op.IsOrdinary = true) _ :=
    .newVm ({} : Tally)
      { rows := [⟨standInName, methods, handlerName⟩], mode, maxDepth := 32 }
  exact hmachine.run (standingIn ⟨0⟩) (uses_standingIn ⟨0⟩)

/-- The class directly extends the base, and its first instance has a handler there. -/
theorem attended_stoodIn (methods : List String) (mode : SwapMode)
    (hmethods : methods = [] ∨ methods = [methodName]) :
    (stoodIn methods mode).world.Registered ⟨0⟩ ⟨3⟩ ∧
    (stoodIn methods mode).world.DirectProxy ⟨0⟩ ⟨3⟩ ∧
    (stoodIn methods mode).world.classOf ⟨0⟩ = ⟨3⟩ ∧
    (stoodIn methods mode).world.slotOf ⟨3⟩ methodName = some 0 ∧
    (stoodIn methods mode).world.baseHandler? ⟨0⟩ ⟨0⟩ = some ⟨1⟩ ∧
    (stoodIn methods mode).world.maxDepth ⟨0⟩ = 32 := by
  unfold World.DirectProxy
  rcases hmethods with rfl | rfl <;> cases mode <;> decide +kernel

/-- A row that lists nothing has no effect on the class's methods. -/
theorem not_lists_stoodIn (mode : SwapMode) :
    ¬ (stoodIn [] mode).world.Lists ⟨0⟩ ⟨3⟩ methodName := by
  have hrows : ((stoodIn [] mode).world.registries.get
      ((stoodIn [] mode).world.coreOf ⟨0⟩).registry).entries.all
        fun e => !e.row.intercepts methodName := by
    cases mode <;> decide +kernel
  rintro ⟨i, r, hr, -, hlisted⟩
  have hlt := hr.lt_size
  rw [World.entry, Registry.entry, Array.getD_eq_getD_getElem?, Array.getElem?_eq_getElem hlt,
    Option.getD_some] at hlisted
  have hnone := Array.all_eq_true.mp hrows i hlt
  rw [hlisted] at hnone
  cases hnone

theorem lists_stoodIn (mode : SwapMode) :
    (stoodIn [methodName] mode).world.Lists ⟨0⟩ ⟨3⟩ methodName := by
  refine ⟨0, ⟨⟨3⟩, ⟨2⟩, 0, ⟨4⟩, ⟨3⟩⟩, ?_⟩
  cases mode <;> decide +kernel

/-- The method is called as declared where the row does not list it, and overflows where it
does. -/
theorem called_stoodIn :
    (∀ mode, ∃ t d, (stoodIn [] mode).world.declared? ⟨3⟩ methodName 0 = some d ∧
      Descends host ⟨0⟩ 32 [⟨1, ⟨0⟩, t, ⟨0⟩, []⟩] t d ⟨0⟩ [] (stoodIn [] mode)
        (invokeVirtual (execute host.logged 32) ⟨0⟩ ⟨0⟩ methodName [] (stoodIn [] mode))) ∧
    ∀ mode, (invokeVirtual (execute host.logged 32) ⟨0⟩ ⟨0⟩ methodName []
      (stoodIn [methodName] mode)).1 = .error (.stackOverflow 33) := by
  have hcalls : ∀ mode methods, methods = [] ∨ methods = [methodName] → ∃ t d,
      (stoodIn methods mode).world.declared? ⟨3⟩ methodName 0 = some d ∧
      CallsDirect host ⟨0⟩ 32 ⟨0⟩ methodName [] t d (stoodIn methods mode)
        (invokeVirtual (execute host.logged 32) ⟨0⟩ ⟨0⟩ methodName [] (stoodIn methods mode)) := by
    intro mode methods hmethods
    obtain ⟨hc, hdirect, hcls, hk, -, hdepth⟩ := attended_stoodIn methods mode hmethods
    have hs := reached_stoodIn methods mode
    -- The state is made a variable, so that unification does not run it.
    generalize stoodIn methods mode = s at hs hc hdirect hcls hk hdepth ⊢
    obtain ⟨-, hcalls⟩ := Reached.calls_direct uses_body hs s.at_present (Or.inl rfl) hc hdirect
    obtain ⟨t, d, -, hd, hcall⟩ := hcalls hcls hk
    refine ⟨t, d, hd, hcall [] s.host.1 s.host.2 ?_ ?_⟩
    · rw [hs.idle uses_body]
      exact Nat.zero_le _
    · rw [hdepth]
      exact Nat.le_add_left _ _
  refine ⟨fun mode => ?_, fun mode => ?_⟩
  · obtain ⟨t, d, hd, hcall⟩ := hcalls mode [] (Or.inl rfl)
    obtain ⟨-, -, hcls, -, -, -⟩ := attended_stoodIn [] mode (Or.inl rfl)
    have hdescends := hcall.unlisted (by rw [hcls]; exact not_lists_stoodIn mode)
    rw [(reached_stoodIn [] mode).idle uses_body] at hdescends
    exact ⟨t, d, hd, hdescends⟩
  · obtain ⟨t, d, hd, hcall⟩ := hcalls mode [methodName] (Or.inr rfl)
    obtain ⟨-, -, hcls, -, hhandler, hdepth⟩ := attended_stoodIn [methodName] mode (Or.inr rfl)
    have hclear : ¬ (stoodIn [methodName] mode).thread.inWindow t ⟨0⟩ = true := by
      rw [(reached_stoodIn [methodName] mode).idle uses_body]
      exact Bool.false_ne_true
    have hinvoke : (stoodIn [methodName] mode).world.HandledBy
        ((stoodIn [methodName] mode).world.classOf ⟨1⟩) 0 ⟨0⟩ Body.invoke := by
      constructor <;> cases mode <;> decide +kernel
    have hpublic : ((stoodIn [methodName] mode).world.declared? ⟨3⟩ methodName 0).map
        (fun x => x.visibility) = some .everyone := by
      cases mode <;> decide +kernel
    have haccess : (stoodIn [methodName] mode).world.checkAccess ⟨0⟩
        (some ((stoodIn [methodName] mode).world.classOf ⟨1⟩)) d = .ok () := by
      rw [hd] at hpublic
      have hvisible : d.visibility = .everyone := Option.some.inj hpublic
      simp only [World.checkAccess, World.isVisibleTo, hvisible, Bool.true_or, ↓reduceIte]
    obtain ⟨hend, -⟩ := hcall.returning (by rw [hcls]; exact lists_stoodIn mode)
      (fun h => hclear h.2) hhandler hinvoke callsThrough_invoke haccess
    rw [hdepth] at hend
    exact hend

/-- **A row for a direct subclass of the proxy base is not ignored.**  The instance is allocated
with a handler in the field of the base, and calling the listed method enters the handler over and
over and does not run the method at all. -/
theorem entered_stoodIn :
    host.CallsThrough Body.invoke ∧ ∀ mode,
      Reached host (fun op => op.IsOrdinary = true) (stoodIn [methodName] mode) ∧
      (stoodIn [methodName] mode).world.DirectProxy ⟨0⟩ ⟨3⟩ ∧
      (stoodIn [methodName] mode).world.classOf ⟨0⟩ = ⟨3⟩ ∧
      (stoodIn [methodName] mode).world.field? ⟨0⟩
        ((stoodIn [methodName] mode).world.vms.get ⟨0⟩).proxyOffset = some (.object ⟨1⟩) ∧
      (stoodIn [methodName] mode).host.1 = {} ∧
      (invokeVirtual (execute host.logged 32) ⟨0⟩ ⟨0⟩ methodName []
        (stoodIn [methodName] mode)).1 = .error (.stackOverflow 33) ∧
      (invokeVirtual (execute host.logged 32) ⟨0⟩ ⟨0⟩ methodName []
        (stoodIn [methodName] mode)).2.host.1 = { handlerEntries := 16, methodRuns := 0 } := by
  refine ⟨callsThrough_invoke, fun mode => ?_⟩
  -- Whether two values are the same is not decided, but it is not asked here.
  have hend : ((invokeVirtual (execute host.logged 32) ⟨0⟩ ⟨0⟩ methodName []
      (stoodIn [methodName] mode)).1.map fun _ => ()) = .error (.stackOverflow 33) := by
    cases mode <;> decide +kernel
  have hfield : ((stoodIn [methodName] mode).world.field? ⟨0⟩
      ((stoodIn [methodName] mode).world.vms.get ⟨0⟩).proxyOffset) = some (.object ⟨1⟩) := by
    cases mode <;> rfl
  obtain ⟨-, hdirect, hcls, -⟩ := attended_stoodIn [methodName] mode (Or.inr rfl)
  refine ⟨reached_stoodIn _ mode, hdirect, hcls, hfield, ?_, Ending.map_eq_error.mp hend, ?_⟩
  all_goals cases mode <;> decide +kernel

end Demo

end Interception
