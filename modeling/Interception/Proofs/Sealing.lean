/-
Class-wide windows stay shut.

A class-wide window writes what the unpatched table has in the trampoline's slot into the
trampoline, and installs that table.  The table does not stay: a window closed inside
installs the intercepted one again.  What keeps the handler from being entered a second time
is the trampoline's own content.  It stays, because the only write that would bring the
trampoline back is the closing of the window itself: a window inside is opened through a
trampoline, hence through another cell.

That there is something to write is the other half.  A trampoline comes to be called from a
table of the receiver's class, or as a handle that passed the receiver check.  Either way
every class with a row above the receiver has a method in its slot: the class that the
trampoline was made for, or, for a handle, the class that declared the method, is on the
receiver's lineage.  What stands there is no trampoline, since no class with a row has a
superclass with one.
-/
import Interception.Proofs.Identity
import Interception.Proofs.Reentry

namespace Interception

variable {β H : Type}

/-- What may be asked where no cell is run unchecked. -/
def Op.IsChecked : Op β → Bool
  | .execute .. => false
  | op => op.IsOrdinary

theorem Op.IsChecked.isOrdinary {op : Op β} (h : op.IsChecked = true) : op.IsOrdinary = true := by
  cases op with
  | execute v m this args => rfl
  | _ => exact h

namespace World

variable {w w' : World β} {u v : VmRef} {c : ClassRef} {g : RegistryRef} {i k : Nat}
  {r : Resolution} {this : ObjectRef} {m o : CellRef}

/-! ### One machine -/

/-- There is one machine, it works class-wide, and no class with a row has a proper
superclass with one. -/
structure Lone (w : World β) : Prop where
  single : w.vms.size ≤ 1
  classWide : ∀ v, w.vms.Live v → (w.coreOf v).mode = .classWide
  unstacked : w.Unstacked

namespace Lone

theorem eq (h : w.Lone) (hu : w.vms.Live u) (hv : w.vms.Live v) : u = v :=
  eq_of_live_vms h.single hu hv

theorem of_grows (h : w'.Lone) (hw : w.Sound) (hg : w.Grows w') : w.Lone where
  single := by
    by_contra hsize
    have hlive : w.vms.Live ⟨1⟩ := Nat.lt_of_not_le hsize
    have hlt : 1 < w'.vms.size := (hg.vms _ hlive).1
    have hsingle := h.single
    omega
  classWide v hv := by
    rw [← hg.coreOf hv]
    exact h.classWide v (hg.vms v hv).1
  unstacked := h.unstacked.of_grows hw hg

end Lone

/-- Only a machine that is there admits calls. -/
theorem live_of_lt_maxDepth {n : Nat} (h : n < w.maxDepth v) : w.vms.Live v := by
  by_contra hv
  rw [maxDepth, Store.get_of_not_live hv] at h
  exact Nat.not_lt_zero n h

/-! ### There is something to write -/

/-- A class with a patched class above it is there. -/
theorem Sound.live_of_patched (hw : w.Sound) (hr : w.Resolves g i r)
    (hmem : r.cls ∈ w.lineage c) : w.classes.Live c := by
  by_contra hc
  have hlineage : w.lineage c = [c] := by
    rw [lineage_eq, ancestors, Store.get_of_not_live hc]
    rfl
  rw [hlineage, List.mem_singleton] at hmem
  exact hc (hmem ▸ hw.orderly.live hr)

/-- Every patched class above the receiver has a method in the slot that a handle names. -/
def Covers (w : World β) (m : CellRef) (this : ObjectRef) : Prop :=
  ∀ {g i r}, w.Resolves g i r → r.cls ∈ w.lineage (w.classOf this) →
    (w.content m).slot < (w.tables.get r.unpatched).length

/-- A trampoline found in the receiver's table. -/
theorem Sound.covers_methodAt (hw : w.Sound) (hu : w.Unstacked)
    (hm : w.methodAt (w.classOf this) k = some m) (htramp : (w.content m).isTrampoline = true) :
    w.Covers m this := by
  intro g i r hr hmem
  have hc := hw.live_of_patched hr hmem
  obtain ⟨g₀, i₀, r₀, j, hr₀, hj⟩ := hw.tabled.copied htramp
  obtain ⟨hmem₀, rfl⟩ := (hw.tabled.current _ hc).copies hm hr₀ hj
  obtain ⟨-, -, rfl⟩ := hw.patched_once hu hc hr hr₀ hmem hmem₀
  obtain ⟨name, hname⟩ := (hw.tabled.intercepted hr).named (List.getElem?_eq_some_iff.mp hj).1
  rw [((hw.tabled.intercepted hr).cells hj).2]
  exact (hw.tabled.unpatched hr).lt hname

/-- A trampoline was declared by a class above the one it was made for, in its own slot. -/
theorem Faithful.declarer (hf : w.Faithful) (hw : w.Sound) (hu : w.Unstacked)
    (hr : w.Resolves g i r) (hk : (w.tables.get r.intercepted)[k]? = some m)
    (htramp : (w.content m).isTrampoline = true) :
    ∃ name a, a ∈ w.lineage r.cls ∧ w.slotOf a name = some k ∧ w.slotOf r.cls name = some k ∧
      (w.content m).owner = (w.classes.get a).number := by
  obtain ⟨name, hname⟩ := (hw.tabled.intercepted hr).named (List.getElem?_eq_some_iff.mp hk).1
  have hlt := (hw.tabled.unpatched hr).lt hname
  have ho : (w.tables.get r.unpatched)[k]? = some (w.tables.get r.unpatched)[k] :=
    List.getElem?_eq_getElem hlt
  have hplain := (hw.tabled.unpatched hr).plain ho (hw.not_copied_unpatched hu hr ho) hname
  obtain ⟨-, hcontent⟩ := hf.of_isTrampoline hw hu htramp hr hk ho
  rw [declared?, Option.map_eq_some_iff] at hplain
  obtain ⟨⟨a, d⟩, hd, hdescriptor⟩ := hplain
  obtain ⟨ha, hlast⟩ := declaration?_eq_some hd
  -- The class that declares the name has it in the same slot.
  have hslotted : (w.slotOf a name).isSome = true := by
    rw [hw.lineages.slotted name (hw.lineages.live_of_mem_lineage (hw.orderly.live hr) ha)]
    refine ⟨a, w.mem_lineage_self a, ?_⟩
    rw [Declares, Class.declares, ← lastNamed_isSome, hlast]
    rfl
  obtain ⟨j, hj⟩ := Option.isSome_iff_exists.mp hslotted
  have hsame := hw.lineages.slots_of_mem_lineage ha hj
  rw [hname] at hsame
  cases hsame
  refine ⟨name, a, ha, hj, hname, ?_⟩
  rw [hcontent, ← hdescriptor]
  rfl

/-- A trampoline that passed the receiver check. -/
theorem Lone.covers_checked (h : w.Lone) (hw : w.Sound) (hf : w.Faithful)
    (hm : w.checkReceiver this (w.content m) = .ok ())
    (htramp : (w.content m).isTrampoline = true) : w.Covers m this := by
  intro g i r hr hmem
  have hc := hw.live_of_patched hr hmem
  obtain ⟨g₀, i₀, r₀, k, hr₀, hk⟩ := hw.tabled.copied htramp
  obtain ⟨name, a, ha, haslot, hslot₀, howner⟩ := hf.declarer hw h.unstacked hr₀ hk htramp
  rw [((hw.tabled.intercepted hr₀).cells hk).2]
  -- All classes are of the one machine, so the check was about the declaring class.
  obtain ⟨v, hv⟩ := hw.homed _ hc
  obtain ⟨v₀, hv₀⟩ := hw.homed _ (hw.orderly.live hr₀)
  obtain rfl := h.eq hv.live_vm hv₀.live_vm
  have habove : a ∈ w.lineage (w.classOf this) := by
    rw [← hw.homes.derivesFrom_iff hv (hw.homes.upward hv₀ ha), ← howner]
    by_contra hno
    rw [checkReceiver, if_neg hno] at hm
    cases hm
  have hrslot : w.slotOf r.cls name = some k := by
    rcases hw.lineages.comparable habove hmem with rfl | hup | hdown
    · exact haslot
    · exact hw.lineages.slots hup haslot
    · -- The patched class is above the declaring class, so it is the one of the trampoline.
      have hup := hw.lineages.mem_lineage_trans (mem_lineage_of_mem_ancestors hdown) ha
      obtain ⟨-, -, rfl⟩ := hw.patched_once h.unstacked (hw.orderly.live hr₀) hr hr₀ hup
        (w.mem_lineage_self r₀.cls)
      exact hslot₀
  exact (hw.tabled.unpatched hr).lt hrslot

/-- What a trampoline stands for is none. -/
theorem Faithful.replaced_plain (hf : w.Faithful) (hw : w.Sound) (hu : w.Unstacked)
    (ho : (w.content m).replaced? = some o) : (w.content o).isTrampoline = false := by
  have htramp := Descriptor.isTrampoline_of_replaced? ho
  obtain ⟨g, i, r, k, hr, hk⟩ := hw.tabled.copied htramp
  obtain ⟨name, hname⟩ := (hw.tabled.intercepted hr).named (List.getElem?_eq_some_iff.mp hk).1
  have hlt := (hw.tabled.unpatched hr).lt hname
  have ho' : (w.tables.get r.unpatched)[k]? = some (w.tables.get r.unpatched)[k] :=
    List.getElem?_eq_getElem hlt
  obtain ⟨-, hcontent⟩ := hf.of_isTrampoline hw hu htramp hr hk ho'
  rw [hcontent] at ho
  have hsame : some (w.tables.get r.unpatched)[k] = some o := ho
  cases hsame
  exact hw.isTrampoline_unpatched hu hr ho'

/-! ### What a window writes -/

section Windows

variable {th : Thread} {core : Core}

/-- Opening a window is seen in the trampoline alone. -/
theorem content_openWindow_of_ne {n : CellRef} (hn : n ≠ m) :
    (w.openWindow th v core this m).2.1.content n = w.content n := by
  have hopens := opens_openWindow w th v core this m
  generalize w.openWindow th v core this m = x at hopens ⊢
  cases hopens with
  | passthrough _ => rfl
  | perCall _ _ _ => rfl
  | classWide _ _ _ => exact content_disarm_of_ne hn

/-- So is closing it. -/
theorem content_closeWindow_of_ne {guard : Guard β} {n : CellRef} (hn : n ≠ guard.trampoline) :
    (w.closeWindow th guard).1.content n = w.content n := by
  obtain ⟨g, m, o, window⟩ := guard
  cases window with
  | passthrough => rfl
  | perCall i key => rfl
  | classWide i token =>
    simp only [closeWindow]
    split
    · exact content_rearm_of_ne hn token
    · rfl

/-- A window opened through a trampoline leaves it holding none. -/
theorem Lone.openWindow (h : w.Lone) (hw : w.Sound) (hv : w.vms.Live v)
    (htramp : (w.content m).isTrampoline = true) (hcovers : w.Covers m this)
    (hopen : (w.openWindow th v (w.coreOf v) this m).1.isPassthrough = false) :
    ((w.openWindow th v (w.coreOf v) this m).2.1.content m).isTrampoline = false := by
  have hopens := opens_openWindow w th v (w.coreOf v) this m
  generalize w.openWindow th v (w.coreOf v) this m = x at hopens hopen ⊢
  cases hopens with
  | passthrough _ => cases hopen
  | perCall _ _ hmode =>
    rw [h.classWide v hv] at hmode
    cases hmode
  | @classWide i r _ hr _ =>
    obtain ⟨-, hres, hmem⟩ := interceptionOf_eq_some.mp hr
    have hlive := (hw.tabled.copied htramp).live hw.tabled
    have hplain := List.getElem?_eq_getElem (hcovers hres hmem)
    show ((w.disarm r m).content m).isTrampoline = false
    rw [content_disarm_self hlive hplain]
    exact hw.isTrampoline_unpatched h.unstacked hres hplain

end Windows

/-! ### Windows in progress -/

/-- The trampoline of every window in progress holds something else. -/
def Shut (w : World β) (log : List (Moment β)) : Prop :=
  ∀ guard ∈ inProgress log, guard.isPassthrough = false →
    w.cells.Live guard.trampoline ∧ (w.content guard.trampoline).isTrampoline = false

theorem Shut.of_keeps {log log' : List (Moment β)} (h : w.Shut log)
    (hcells : w.cells.Keeps w'.cells) (hlog : inProgress log' = inProgress log) :
    w'.Shut log' := by
  intro guard hguard hopen
  rw [hlog] at hguard
  obtain ⟨hlive, hno⟩ := h guard hguard hopen
  obtain ⟨hlive', hget⟩ := hcells _ hlive
  refine ⟨hlive', ?_⟩
  rw [content, hget]
  exact hno

end World

/-- Windows in progress are shut at a moment.  A window that opens there is not opened through
the trampoline of one of them, and the window that closes is the innermost. -/
structure Moment.Sealed (x : Moment β) (older : List (Moment β)) : Prop where
  shut : x.world.Shut (x :: older)
  opened : ∀ g, x.event = .opened g → ∀ g' ∈ inProgress older, g'.isPassthrough = false →
    g'.trampoline ≠ g.trampoline
  closed : ∀ g, x.event = .closed g → ∃ rest, inProgress older = g :: rest

/-- Windows in progress are shut, now and at every earlier moment. -/
structure Trail.Sealed (t : Trail β) : Prop where
  now : t.world.Shut t.log
  past : ∀ newer x older, t.log = newer ++ x :: older → x.Sealed older

namespace Trail.Sealed

variable {t u : Trail β}

/-- A change to the world alone. -/
theorem of_keeps {w : World β} (h : t.Sealed) (hw : t.world.cells.Keeps w.cells) :
    ({ t with world := w } : Trail β).Sealed :=
  ⟨h.now.of_keeps hw rfl, h.past⟩

/-- One more event. -/
theorem of_event {e : Event β} (h : t.Sealed) (hlog : u.log = ⟨e, u.world, u.thread⟩ :: t.log)
    (hnew : Moment.Sealed ⟨e, u.world, u.thread⟩ t.log) : u.Sealed where
  now := by
    rw [hlog]
    exact hnew.shut
  past newer x older hsplit := by
    rw [hlog] at hsplit
    cases newer with
    | nil =>
      cases hsplit
      exact hnew
    | cons y rest => exact h.past rest x older (List.cons.inj hsplit).2

/-- An event that neither opens nor closes a window. -/
theorem outside (h : t.Sealed) {e : Event β} (he : e.OutsideWindows) (th : Thread) :
    (({ t with thread := th } : Trail β).note e).Sealed := by
  refine h.of_event rfl
    ⟨h.now.of_keeps (.refl _) (inProgress_cons he _ _ _), fun g hg => ?_, fun g hg => ?_⟩
  · have hg' : e = .opened g := hg
    rw [hg'] at he
    cases he
  · have hg' : e = .closed g := hg
    rw [hg'] at he
    cases he

end Trail.Sealed

/-- A frame was entered on a machine that is there. -/
def Trail.Manned (t : Trail β) : Prop :=
  ∀ x ∈ t.log, ∀ {v m this args}, x.event = .entered v m this args → x.world.vms.Live v

theorem Trail.Manned.cons {t u : Trail β} {e : Event β} (h : t.Manned)
    (hlog : u.log = ⟨e, u.world, u.thread⟩ :: t.log)
    (he : ∀ {v m this args}, e = .entered v m this args → u.world.vms.Live v) : u.Manned := by
  intro x hx v m this args hentered
  rw [hlog] at hx
  rcases List.mem_cons.mp hx with rfl | hx
  · exact he hentered
  · exact h x hx hentered

/-- What checked runs keep on a machine that works class-wide. -/
structure Trail.Swapping (t : Trail β) : Prop where
  sound : t.world.Sound
  faithful : t.world.Unstacked → t.world.Faithful
  directs : t.world.Directs
  manned : t.Manned
  isSealed : t.world.Lone → t.Sealed

/-- A trampoline that is called has something to be overwritten with. -/
def World.Coverable (w : World β) (_ : VmRef) (m : CellRef) (this : ObjectRef) : Prop :=
  w.Lone → (w.content m).isTrampoline = true → w.Covers m this

section Windows

variable {t u : Trail β} {v : VmRef} {m : CellRef} {this : ObjectRef} {args : List Value}

theorem trampoline_guardFor (t : Trail β) (v : VmRef) (core : Core) (this : ObjectRef)
    (m : CellRef) : (t.guardFor v core this m).trampoline = m := by
  have hopens := World.opens_openWindow t.world t.thread v core this m
  unfold Trail.guardFor
  generalize t.world.openWindow t.thread v core this m = x at hopens ⊢
  cases hopens <;> rfl

/-- A trampoline is none of those whose windows are in progress. -/
theorem Trail.Sealed.ne_of_isTrampoline (h : t.Sealed)
    (htramp : (t.world.content m).isTrampoline = true) :
    ∀ g ∈ inProgress t.log, g.isPassthrough = false → g.trampoline ≠ m := by
  intro g hg hopen heq
  have hno := (h.now g hg hopen).2
  rw [heq, htramp] at hno
  cases hno

theorem Trail.Sealed.begin (h : t.Sealed) (hlone : t.world.Lone) (hw : t.world.Sound)
    (hv : t.world.vms.Live v) (htramp : (t.world.content m).isTrampoline = true)
    (hcovers : t.world.Covers m this) : (t.begin v (t.world.coreOf v) this m).Sealed := by
  have hshift := World.shifts_openWindow t.world t.thread v (t.world.coreOf v) this m
  have hothers := h.ne_of_isTrampoline htramp
  have hm := trampoline_guardFor t v (t.world.coreOf v) this m
  refine h.of_event rfl
    ⟨fun g hg hopen => ?_, fun g hg g' hg' hopen => ?_, fun g hg => by cases hg⟩
  · rcases List.mem_cons.mp hg with rfl | hg
    · rw [hm]
      have hlive := (hw.tabled.copied htramp).live hw.tabled
      exact ⟨(hshift.cells m).mpr hlive, hlone.openWindow hw hv htramp hcovers hopen⟩
    · obtain ⟨hlive, hno⟩ := h.now g hg hopen
      refine ⟨(hshift.cells _).mpr hlive, ?_⟩
      have hsame : (t.world.openWindow t.thread v (t.world.coreOf v) this m).2.1.content
          g.trampoline = t.world.content g.trampoline :=
        World.content_openWindow_of_ne (hothers g hg hopen)
      exact (congrArg Descriptor.isTrampoline hsame).trans hno
  · cases hg
    rw [hm]
    exact hothers g' hg' hopen

/-- Closing a window leaves those further out as they were: they were opened through other
cells. -/
theorem Trail.Sealed.finish {g : Guard β} {older : List (Guard β)} (hu : u.Sealed)
    (hcalls : inProgress u.log = g :: older)
    (hothers : ∀ g' ∈ older, g'.isPassthrough = false → g'.trampoline ≠ g.trampoline) :
    (u.finish g).Sealed := by
  have hshift := World.shifts_closeWindow u.world u.thread g
  refine hu.of_event rfl
    ⟨fun g' hg' hopen => ?_, fun g' hg' => (by cases hg'), fun g' hg' => ?_⟩
  · have hleft : g' ∈ older := by
      have htail : g' ∈ (inProgress u.log).tail := hg'
      rw [hcalls] at htail
      exact htail
    obtain ⟨hlive, hno⟩ := hu.now g' (by rw [hcalls]; exact List.mem_cons_of_mem g hleft) hopen
    refine ⟨(hshift.cells _).mpr hlive, ?_⟩
    have hsame : (u.world.closeWindow u.thread g).1.content g'.trampoline =
        u.world.content g'.trampoline := World.content_closeWindow_of_ne (hothers g' hleft hopen)
    exact (congrArg Descriptor.isTrampoline hsame).trans hno
  · cases hg'
    exact ⟨older, hcalls⟩

end Windows

/-! ### Every run -/

namespace Trail.Swapping

variable {t : Trail β}

/-- A change to the world alone, in which cells keep what they hold. -/
theorem of_keeps {w : World β} (ht : t.Swapping) (hw : w.Sound)
    (hf : w.Unstacked → w.Faithful) (hd : w.Directs) (hg : t.world.Grows w)
    (hcells : t.world.cells.Keeps w.cells) : ({ t with world := w } : Trail β).Swapping where
  sound := hw
  faithful := hf
  directs := hd
  manned := ht.manned
  isSealed hlone := (ht.isSealed (hlone.of_grows ht.sound hg)).of_keeps hcells

/-- An event that neither opens nor closes a window. -/
theorem outside (ht : t.Swapping) {e : Event β} (he : e.OutsideWindows) (th : Thread)
    (hv : ∀ {v m this args}, e = .entered v m this args → t.world.vms.Live v) :
    (({ t with thread := th } : Trail β).note e).Swapping where
  sound := ht.sound
  faithful := ht.faithful
  directs := ht.directs
  manned := ht.manned.cons rfl hv
  isSealed hlone := (ht.isSealed hlone).outside he th

end Trail.Swapping

/-- Checked runs on a machine that works class-wide keep every window in progress shut. -/
theorem kept_swapping : Kept (β := β) (fun op => op.IsChecked = true) World.Coverable
    Trail.Swapping
    (fun t u => (t.world.Sound ∧ t.world.Tends u.world) ∧
      inProgress u.log = inProgress t.log) where
  ordinary := Op.IsChecked.isOrdinary
  refl ht := ⟨kept_sound.refl ht.sound, rfl⟩
  trans hu hx h h' := ⟨kept_sound.trans hu.sound hx.sound h.1 h'.1, h'.2.trans h.2⟩
  note {t e} he ht := by
    have hout := he.outsideWindows
    refine ⟨ht.outside hout t.thread fun h => ?_, (kept_sound.note he ht.sound).rel,
      inProgress_cons hout t.world t.thread t.log⟩
    subst h
    cases he
  define {t v d c w} _ ht hd := by
    have h := kept_faithful.define (v := v) rfl ⟨ht.sound, ht.faithful⟩ hd
    have hext := World.extends_define hd
    exact ⟨ht.of_keeps h.inv.1 h.inv.2 (ht.directs.define ht.sound hd) hext.grows hext.cells,
      h.rel, rfl⟩
  allocate {t v c} _ ht := by
    have h := kept_faithful.allocate (v := v) (c := c) rfl ⟨ht.sound, ht.faithful⟩
    have hd := kept_directs.allocate (v := v) (c := c) rfl ⟨ht.sound, ht.directs⟩
    have hext := World.extends_allocate 0 t.world v c
    exact ⟨ht.of_keeps h.inv.1 h.inv.2 hd.inv.2 hext.grows hext.cells, h.rel, rfl⟩
  setField {t o i x w} _ ht hf := by
    have h := kept_faithful.setField rfl ⟨ht.sound, ht.faithful⟩ hf
    have hd := kept_directs.setField rfl ⟨ht.sound, ht.directs⟩ hf
    have hext := World.extends_setField 0 hf
    exact ⟨ht.of_keeps h.inv.1 h.inv.2 hd.inv.2 hext.grows hext.cells, h.rel, rfl⟩
  frame {t v m this} args ht _ hd := by
    have hv := World.live_of_lt_maxDepth hd
    refine ⟨ht.outside (e := .entered v m this args) trivial _ fun h => ?_, fun u hu h => ?_⟩
    · cases h
      exact hv
    · exact ⟨hu.outside (e := .left v m this) trivial _ (fun h => by cases h), h.1, h.2⟩
  window {t v m this args replaced handler} ht hmay hent hr hw hh := by
    have htramp := Descriptor.isTrampoline_of_replaced? hr
    obtain ⟨rest, hrest⟩ := hent
    have hv : t.world.vms.Live v := ht.manned _ (hrest ▸ List.mem_cons_self) rfl
    obtain ⟨hin, hout⟩ :=
      kept_faithful.window ⟨ht.sound, ht.faithful⟩ trivial ⟨rest, hrest⟩ hr hw hh
    obtain ⟨hdin, hdout⟩ :=
      kept_directs.window ⟨ht.sound, ht.directs⟩ trivial ⟨rest, hrest⟩ hr hw hh
    have hopen := t.grows_begin v (t.world.coreOf v) this m
    refine ⟨⟨hin.1, hin.2, hdin.2, ht.manned.cons rfl (fun h => by cases h), fun hlone => ?_⟩,
      fun u hu h => ?_⟩
    · have hlone₀ := hlone.of_grows ht.sound hopen
      exact (ht.isSealed hlone₀).begin hlone₀ ht.sound hv htramp (hmay hlone₀ htramp)
    · have hcalls : inProgress u.log =
          t.guardFor v (t.world.coreOf v) this m :: inProgress t.log := h.2
      have hclosed := hout u ⟨hu.sound, hu.faithful⟩ h.1
      have hdclosed := hdout u ⟨hu.sound, hu.directs⟩ h.1
      have hclose := u.grows_finish (t.guardFor v (t.world.coreOf v) this m)
      refine ⟨⟨hclosed.inv.1, hclosed.inv.2, hdclosed.inv.2,
        hu.manned.cons rfl (fun h => by cases h), fun hlone => ?_⟩, hclosed.rel,
        inProgress_finish hcalls⟩
      have hlone₁ := hlone.of_grows hu.sound hclose
      have hlone₀ := hlone₁.of_grows ht.sound (hopen.trans h.1.2.grows)
      refine (hu.isSealed hlone₁).finish hcalls ?_
      rw [trampoline_guardFor]
      exact (ht.isSealed hlone₀).ne_of_isTrampoline htramp
  slot {t v this k m} ht hm hlone htramp :=
    ht.sound.covers_methodAt hlone.unstacked hm htramp
  direct {t v this name args m} _ ht hm _ htramp := by
    rw [ht.directs.isTrampoline ht.sound hm] at htramp
    cases htramp
  method {t v caller m this args} _ ht hrec _ hlone htramp :=
    hlone.covers_checked ht.sound (ht.faithful hlone.unstacked) hrec htramp
  execute ha _ := by cases ha
  replaced {t v m this m'} ht _ hr _ hlone htramp := by
    rw [(ht.faithful hlone.unstacked).replaced_plain ht.sound hlone.unstacked hr] at htramp
    cases htramp

section Reached

variable {host : Host β H} {s : State β (Logged β H)}

theorem Reached.swapping
    (hb : ∀ b v this args, (host.body b v this args).Uses fun op => op.IsChecked = true)
    (hs : Reached host (fun op => op.IsChecked = true) s) : s.trail.Swapping := by
  refine Reached.inv kept_swapping hb ?_ ?_ ?_ hs
  · exact
      { sound := .empty
        faithful := fun _ => .empty
        directs := .empty
        manned := fun x hx => by cases hx
        isSealed := fun _ =>
          ⟨fun g hg => (by cases hg), fun newer x older h => by cases newer <;> cases h⟩ }
  · intro t rows ht
    have hext := World.extends_newRegistry 0 t.world rows
    refine ht.of_keeps (ht.sound.newRegistry rows) (fun hu => ?_)
      (ht.directs.newRegistry ht.sound rows) hext.grows hext.cells
    exact (ht.faithful (hu.of_grows ht.sound hext.grows)).newRegistry ht.sound rows
  · intro t options core _ ht
    have hext := World.extends_newVmAround t.world options core
    refine ht.of_keeps (ht.sound.newVmAround options core) (fun hu => ?_)
      (ht.directs.newVmAround ht.sound options core) hext.grows hext.cells
    exact (ht.faithful (hu.of_grows ht.sound hext.grows)).newVmAround World.stands_copyOf
      ht.sound options core

/-- **No handler is entered again through the cell whose window is open.**  On one machine that
works class-wide, where no class with a row has a proper superclass with one, and with bodies
that run no cell unchecked: windows close innermost first, and from the moment one is opened
through a trampoline until it is closed, whatever windows open and close inside, no other is
opened through that cell; at every moment it holds a body or is abstract, and on whatever
receiver it is called, that is what the call runs. -/
theorem Reached.stays_shut
    (hb : ∀ b v this args, (host.body b v this args).Uses fun op => op.IsChecked = true)
    (hs : Reached host (fun op => op.IsChecked = true) s) (hlone : s.world.Lone)
    {newer older : List (Moment β)} {x : Moment β} (hlog : s.host.2 = newer ++ x :: older) :
    (∀ g, x.event = .closed g → ∃ rest, inProgress older = g :: rest) ∧
    (∀ g, x.event = .opened g → ∀ g' ∈ inProgress older, g'.isPassthrough = false →
      g'.trampoline ≠ g.trampoline) ∧
    ∀ g ∈ inProgress (x :: older), g.isPassthrough = false →
      (x.world.content g.trampoline).isTrampoline = false ∧
      ∀ v this args (n : Nat) (h : H) log, x.thread.depth < x.world.maxDepth v →
        execute host.logged (n + 1) v g.trampoline this args ⟨x.world, x.thread, (h, log)⟩ =
          inFrame host.logged v g.trampoline this args
            (match (x.world.content g.trampoline).code with
              | .native b =>
                (host.logged.body b v this args).run host.logged (execute host.logged n)
              | _ => fun u =>
                (.error (.abstractMethod (x.world.content g.trampoline).qualifiedName), u))
            ⟨x.world, x.thread, (h, log)⟩ := by
  have hsealed := ((hs.swapping hb).isSealed hlone).past newer x older hlog
  refine ⟨hsealed.closed, hsealed.opened, fun g hg hopen => ?_⟩
  have hno := (hsealed.shut g hg hopen).2
  refine ⟨hno, fun v this args n h log hd => ?_⟩
  let entered : State β (Logged β H) :=
    (⟨x.world, x.thread, (h, log)⟩ : State β (Logged β H)).enter host.logged v g.trampoline this
      args
  cases hcode : (x.world.content g.trampoline).code with
  | native b =>
    have hcode' : (entered.world.content g.trampoline).code = .native b := hcode
    rw [execute_admitted host.logged hd, runCell_native _ _ hcode']
    rfl
  | abstract =>
    have hcode' : (entered.world.content g.trampoline).code = .abstract := hcode
    rw [execute_admitted host.logged hd, runCell_abstract _ _ hcode']
    rfl
  | trampoline o =>
    rw [Descriptor.isTrampoline, Descriptor.replaced?_eq_some_iff.mpr hcode] at hno
    cases hno

end Reached

/-! ### The demonstration -/

namespace Demo

theorem checked_opened (mode : SwapMode) :
    Reached host (fun op => op.IsChecked = true) (opened mode) := by
  have hmachine : Reached host (fun op => op.IsChecked = true) _ :=
    .newVm ({} : Tally) { mode, maxDepth }
  exact hmachine.run (opening ⟨0⟩) (uses_opening rfl rfl rfl ⟨0⟩)

theorem lone_opened : (opened .classWide).world.Lone where
  single := by decide +kernel
  classWide v hv := by
    obtain rfl := World.eq_of_live_vm (by decide +kernel) hv
    decide +kernel
  unstacked := by decide +kernel

/-- In the frame in which the handler calls through, the trampoline holds the method. -/
theorem shut_in_handler : ∃ newer x older g, (opened .classWide).host.2 = newer ++ x :: older ∧
    g ∈ inProgress (x :: older) ∧ g.isPassthrough = false ∧ g.trampoline = ⟨2⟩ ∧
    (x.world.content ⟨2⟩).isTrampoline = false := by
  have hlength : 6 < (opened .classWide).host.2.length := by decide +kernel
  have hguards : (inProgress ((opened .classWide).host.2.drop 6)).map
      (fun g => (g.trampoline, g.isPassthrough)) = [(⟨2⟩, false)] := by decide +kernel
  have hlog : (opened .classWide).host.2 = (opened .classWide).host.2.take 6 ++
      (opened .classWide).host.2[6] :: (opened .classWide).host.2.drop 7 := by
    rw [← List.drop_eq_getElem_cons hlength, List.take_append_drop]
  rw [List.drop_eq_getElem_cons hlength] at hguards
  generalize (opened .classWide).host.2[6] = x at hguards hlog
  generalize (opened .classWide).host.2.drop 7 = older at hguards hlog
  obtain ⟨g, hg, heq⟩ := List.mem_map.mp (hguards ▸ List.mem_cons_self)
  obtain ⟨htrampoline, hopen⟩ := Prod.mk.inj heq
  obtain ⟨-, -, hshut⟩ := Reached.stays_shut (uses_callMethod rfl) (checked_opened .classWide)
    lone_opened hlog
  have hno := (hshut g hg hopen).1
  rw [htrampoline] at hno
  exact ⟨_, x, older, g, hlog, hg, hopen, htrampoline, hno⟩

end Demo

end Interception
