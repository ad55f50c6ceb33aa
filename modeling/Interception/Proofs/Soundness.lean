/-
Worlds at any moment of a run.

`Sound` puts together what is true of the world whenever it can be looked at: between two
operations, inside frames and inside windows.  Every ordinary operation keeps it, and so
do setting up registries and machines, so it holds at every moment of every run.
-/
import Interception.Proofs.NewTables
import Interception.Proofs.Restoration

namespace Interception

variable {β H : Type}

namespace World

variable {w w' : World β} {v : VmRef} {c : ClassRef}

/-- Objects have the fields of their class. -/
structure Peopled (w : World β) : Prop where
  live : ∀ {o}, w.objects.Live o → w.classes.Live (w.classOf o)
  fields : ∀ {o}, w.objects.Live o →
    (w.objects.get o).fields.length = (w.classes.get (w.classOf o)).fields.length

namespace Peopled

theorem empty : ({} : World β).Peopled where
  live h := absurd h (Nat.not_lt_zero _)
  fields h := absurd h (Nat.not_lt_zero _)

theorem of_grows (h : w.Peopled) (hg : w.Grows w') (ho : w'.objects = w.objects) :
    w'.Peopled where
  live {o} hlive := by
    rw [ho] at hlive
    rw [(hg.objects o hlive).2.1]
    exact (hg.classes _ (h.live hlive)).1
  fields {o} hlive := by
    rw [ho] at hlive
    obtain ⟨-, hcls, hfields⟩ := hg.objects o hlive
    rw [hfields, hcls, (hg.classes _ (h.live hlive)).2.fields]
    exact h.fields hlive

theorem of_onlyObjects (h : w.Peopled) (ho : w.OnlyObjects w') : w'.Peopled where
  live {o} hlive := by
    rw [ho.classes]
    rcases ho.made o hlive with hold | ⟨hc, -⟩
    · rw [(ho.objects o hold).2.1]
      exact h.live hold
    · exact hc
  fields {o} hlive := by
    rw [ho.classes]
    rcases ho.made o hlive with hold | ⟨-, hf⟩
    · obtain ⟨-, hcls, hfields⟩ := ho.objects o hold
      rw [hfields, hcls]
      exact h.fields hold
    · exact hf

end Peopled

/-- What is true of the world whenever it can be looked at. -/
structure Sound (w : World β) : Prop where
  orderly : w.Orderly
  lineages : w.Lineages
  homes : w.Homes
  filled : w.Filled
  tabled : w.Tabled
  peopled : w.Peopled
  /-- Every class was published somewhere. -/
  homed : ∀ c, w.classes.Live c → ∃ v, w.Registered v c

namespace Sound

theorem empty : ({} : World β).Sound :=
  ⟨.empty, .empty, .empty, .empty, .empty, .empty, fun _ hc => absurd hc (Nat.not_lt_zero _)⟩

/-- Steps that make no class, publish none and fill in no entry. -/
theorem of_turns (h : w.Sound) (hw : w.Turns w') (ho : w'.Orderly) (hp : w'.Peopled)
    (hsize : w'.classes.size = w.classes.size)
    (hvms : ∀ v, (w'.vms.get v).classes = (w.vms.get v).classes) : w'.Sound where
  orderly := ho
  lineages := h.lineages.of_sameClasses (.of_grows hw.grows hsize)
  homes := h.homes.of_grows hw.grows hvms hw.resolves
  filled := h.filled.of_grows h.orderly h.homes.live hw.grows hw.resolves
  tabled := h.tabled.of_turns h.lineages h.orderly hw
  peopled := hp
  homed c hc := by
    rw [Store.Live, hsize] at hc
    obtain ⟨v, hv⟩ := h.homed c hc
    exact ⟨v, hv.of_grows hw.grows⟩

theorem of_onlyObjects (h : w.Sound) (ho : w.OnlyObjects w') : w'.Sound :=
  h.of_turns ho.turns (h.orderly.of_onlyObjects ho) (h.peopled.of_onlyObjects ho)
    (by rw [ho.classes]) fun v => by
      obtain ⟨n, hn⟩ := ho.vms v
      rw [hn]

theorem of_shifts (h : w.Sound) (hs : w.Shifts w') (ht : w'.Tabled) : w'.Sound where
  orderly := h.orderly.of_shifts hs
  lineages := h.lineages.of_sameClasses hs.sameClasses
  homes := h.homes.of_grows hs.grows (fun v => by rw [hs.vms]) fun hr => hs.resolves.mp hr
  filled := h.filled.of_grows h.orderly h.homes.live hs.grows fun hr => hs.resolves.mp hr
  tabled := ht
  peopled := h.peopled.of_grows hs.grows hs.objects
  homed c hc := by
    obtain ⟨v, hv⟩ := h.homed c ((hs.liveClasses c).mp hc)
    exact ⟨v, hv.of_grows hs.grows⟩

theorem newRegistry (h : w.Sound) (rows : List Row) : (w.newRegistry rows).2.Sound := by
  have hext := extends_newRegistry 0 w rows
  exact h.of_turns (turns_of_classes hext.grows rfl (fun _ hc => ⟨hc, rfl⟩) resolves_newRegistry)
    (h.orderly.newRegistry rows) (h.peopled.of_grows hext.grows rfl) rfl fun _ => rfl

/-- A class enrolled on a machine is known there from then on. -/
theorem homed_enroll (hn : w.Newcomer v c)
    (h : ∀ a, w.classes.Live a → a ≠ c → ∃ u, w.Registered u a) (a : ClassRef)
    (ha : (w.enroll v c).classes.Live a) : ∃ u, (w.enroll v c).Registered u a := by
  have ha' := ((sameClasses_enroll w v c).live a).mp ha
  by_cases hac : a = c
  · exact ⟨v, (registered_enroll hn.machine).mpr (Or.inr ⟨rfl, hac⟩)⟩
  · obtain ⟨u, hu⟩ := h a ha' hac
    exact ⟨u, (registered_enroll hn.machine).mpr (Or.inl hu)⟩

theorem objects_enroll (w : World β) (v : VmRef) (c : ClassRef) :
    (w.enroll v c).objects = w.objects := by
  have hp := patches_patch w v (w.coreOf v) c
  have hsame : (w.enroll v c).objects = (w.patch v (w.coreOf v) c).2.objects := rfl
  rw [hsame]
  generalize (w.patch v (w.coreOf v) c).2 = x at hp
  cases hp with
  | nothing => rfl
  | installs _ _ _ _ => rfl

theorem define (h : w.Sound) {d : ClassDecl β} (hd : w.define v d = .ok (c, w')) :
    w'.Sound ∧ w.Tends w' := by
  have horderly := h.orderly.define hd
  obtain ⟨rfl, s, hs, rfl⟩ := define_enrolls hd
  obtain ⟨hreg, -⟩ := h.homes.of_findClass hs
  have hsuper : ∀ a, some s = some a → w.classes.Live a := fun a ha => by
    cases ha
    exact h.homes.live hreg
  have hnew := newcomer_link h.orderly h.lineages h.homes d hreg
  have hext := extends_link 0 w d (w.vms.get v).classes.next (some s)
  have hordered := h.tabled.ordered h.lineages (h.homes.live hreg)
  have hlinked : ∀ a, (w.link d (w.vms.get v).classes.next (some s)).2.classes.Live a →
      a ≠ w.classes.next →
      ∃ u, (w.link d (w.vms.get v).classes.next (some s)).2.Registered u a := by
    intro a ha hne
    obtain ⟨u, hu⟩ := h.homed a (((live_link_iff w d _ (some s) a).mp ha).resolve_right hne)
    exact ⟨u, hu.of_grows hext.grows⟩
  have ho := h.orderly.link d (w.vms.get v).classes.next (some s)
  have hl := h.lineages.link d (w.vms.get v).classes.next hsuper hordered
  have hh := h.homes.of_grows hext.grows (fun _ => rfl) fun hr => hr
  have hf := h.filled.of_grows h.orderly h.homes.live hext.grows fun hr => hr
  have ht := h.tabled.link h.lineages h.orderly d (w.vms.get v).classes.next hsuper hordered
  have hp := h.peopled.of_grows hext.grows rfl
  have htends : w.Tends (w.link d (w.vms.get v).classes.next (some s)).2 :=
    tends_of_extends hext fun hr => hr
  generalize (w.link d (w.vms.get v).classes.next (some s)).2 = x at *
  obtain ⟨ht', htends'⟩ := ht.enroll hl ho hnew
  refine ⟨?_, htends.trans htends' h.tabled ht⟩
  exact
    { orderly := horderly
      lineages := hl.of_sameClasses (sameClasses_enroll x v _)
      homes := hh.enroll hnew
      filled := hf.enroll ho hh hnew
      tabled := ht'
      peopled := hp.of_grows (extends_enroll x v (Nat.zero_le w.classes.next.index)).grows
        (objects_enroll x v _)
      homed := homed_enroll hnew hlinked }

theorem newVmAround (h : w.Sound) (options : VmOptions) (core : Core) :
    (w.newVmAround options core).2.Sound := by
  have hbare := extends_bareMachine 0 w options core
  obtain ⟨⟨hf, ht, hp⟩, ho, hl, hh, hhomed⟩ := newVmAround_enroll options core
    (P := fun x => x.Filled ∧ x.Tabled ∧ x.Peopled) h.orderly h.lineages h.homes
    ⟨h.filled.of_grows h.orderly h.homes.live hbare.grows fun hr => hr,
      h.tabled.bareMachine h.lineages h.orderly options core,
      h.peopled.of_grows hbare.grows rfl⟩
    fun {x c} ho hl hh hn hx =>
      ⟨hx.1.enroll ho hh hn, (hx.2.1.enroll hl ho hn).1,
        hx.2.2.of_grows (extends_enroll x _ (Nat.zero_le c.index)).grows (objects_enroll x _ _)⟩
  refine ⟨ho, hl, hh, hf, ht, hp, fun a ha => ?_⟩
  rcases hhomed a ha with hold | hnew
  · obtain ⟨u, hu⟩ := h.homed a hold
    exact ⟨u, hu.of_grows (extends_newVmAround w options core).grows⟩
  · exact ⟨_, hnew⟩

/-- What linking below a registered class and enrolling a newcomer keep, a definition keeps. -/
theorem define_induct {P : World β → Prop} (h : w.Sound) {d : ClassDecl β}
    (hd : w.define v d = .ok (c, w'))
    (hlink : ∀ {s}, w.Registered v s → P (w.link d (w.vms.get v).classes.next (some s)).2)
    (henroll : ∀ {x : World β}, x.Orderly → x.Lineages → x.Tabled → x.Newcomer v c → P x →
      P (x.enroll v c)) : P w' := by
  obtain ⟨rfl, s, hs, rfl⟩ := define_enrolls hd
  obtain ⟨hreg, -⟩ := h.homes.of_findClass hs
  have hsuper : ∀ a, some s = some a → w.classes.Live a := fun a ha => by
    cases ha
    exact h.homes.live hreg
  have hordered := h.tabled.ordered h.lineages (h.homes.live hreg)
  exact henroll (h.orderly.link d _ _) (h.lineages.link d _ hsuper hordered)
    (h.tabled.link h.lineages h.orderly d _ hsuper hordered)
    (newcomer_link h.orderly h.lineages h.homes d hreg) (hlink hreg)

/-- The same for setting up a machine. -/
theorem newVmAround_keeps {P : World β → Prop} (h : w.Sound) (options : VmOptions) (core : Core)
    (hbare : P (w.bareMachine options core))
    (henroll : ∀ {x : World β} {c : ClassRef}, x.Orderly → x.Lineages → x.Tabled →
      x.Newcomer w.vms.next c → P x → P (x.enroll w.vms.next c)) :
    P (w.newVmAround options core).2 := by
  obtain ⟨⟨-, hkept⟩, -⟩ := newVmAround_enroll options core (P := fun x => x.Tabled ∧ P x)
    h.orderly h.lineages h.homes ⟨h.tabled.bareMachine h.lineages h.orderly options core, hbare⟩
    fun ho hl _ hn hx => ⟨(hx.1.enroll hl ho hn).1, henroll ho hl hx.1 hn hx.2⟩
  exact hkept

theorem tends_newRegistry (w : World β) (rows : List Row) : w.Tends (w.newRegistry rows).2 :=
  tends_of_extends (extends_newRegistry 0 w rows) resolves_newRegistry

theorem tends_newVmAround (h : w.Sound) (options : VmOptions) (core : Core) :
    w.Tends (w.newVmAround options core).2 :=
  h.newVmAround_keeps options core (P := w.Tends)
    (tends_of_extends (extends_bareMachine 0 w options core) fun hr => hr)
    fun ho hl ht hn hx => hx.trans (ht.enroll hl ho hn).2 h.tabled ht

end Sound

/-! ### Windows -/

section Windows

variable {t : Thread} {core : Core} {o : ObjectRef} {m : CellRef}

/-- Opening a window on a trampoline. -/
theorem Sound.turns_openWindow (h : w.Sound) (hm : (w.content m).isTrampoline = true) :
    w.Turns (w.openWindow t v core o m).2.1 := by
  have hopens := opens_openWindow w t v core o m
  generalize w.openWindow t v core o m = x at hopens ⊢
  cases hopens with
  | passthrough _ => exact turns_of_classes (.refl w) rfl (fun _ hc => ⟨hc, rfl⟩) fun hr => hr
  | perCall _ _ _ =>
    exact turns_modifyEntry w _ _ Entry.row_windowOpened Entry.resolution_windowOpened
  | @classWide i r _ hr _ =>
    have hres := (interceptionOf_eq_some.mp hr).2.1
    exact (turns_disarm h.tabled h.lineages h.orderly hres (h.tabled.copied hm)).trans
      (turns_modifyEntry _ _ _ Entry.row_windowOpened Entry.resolution_windowOpened) h.tabled

/-- Closing it again, whatever happened in between. -/
theorem Sound.turns_closeWindow (h : w.Sound) (hm : (w.content m).isTrampoline = true)
    {x : World β} (hx : x.Sound) (hgrows : w.Grows x) (u : Thread) :
    x.Turns (x.closeWindow u (w.openWindow t v core o m).1).1 := by
  have hopens := opens_openWindow w t v core o m
  generalize w.openWindow t v core o m = y at hopens ⊢
  cases hopens with
  | passthrough _ => exact turns_of_classes (.refl x) rfl (fun _ hc => ⟨hc, rfl⟩) fun hr => hr
  | perCall _ _ _ =>
    exact turns_modifyEntry x _ _ Entry.row_windowClosed Entry.resolution_windowClosed
  | @classWide i r _ hr _ =>
    have hres : x.Resolves core.registry i r :=
      hgrows.resolved (interceptionOf_eq_some.mp hr).2.1
    -- The trampoline is a copy, so it still names the position it had.
    obtain ⟨g', i', r', k, hr', hk⟩ := h.tabled.copied hm
    have hcopied : x.Copied m := (h.tabled.copied hm).of_grows h.tabled hgrows
    have hk' : (x.tables.get r'.intercepted)[k]? = some m := by
      rw [hgrows.table_intercepted h.tabled hr']
      exact hk
    have hslot : (w.content m).slot = (x.content m).slot :=
      ((h.tabled.intercepted hr').cells hk).2.trans
        ((hx.tabled.intercepted (hgrows.resolved hr')).cells hk').2.symm
    rw [closeWindow_classWide x u _ _ _ _ hres]
    exact (turns_rearm hx.tabled hx.lineages hx.orderly hres hcopied hslot).trans
      (turns_modifyEntry _ _ _ Entry.row_windowClosed Entry.resolution_windowClosed) hx.tabled

theorem Sound.openWindow (h : w.Sound) (hm : (w.content m).isTrampoline = true) :
    (w.openWindow t v core o m).2.1.Sound :=
  h.of_shifts (shifts_openWindow w t v core o m)
    (h.tabled.of_turns h.lineages h.orderly (h.turns_openWindow hm))

theorem Sound.closeWindow (h : w.Sound) (hm : (w.content m).isTrampoline = true)
    {x : World β} (hx : x.Sound) (hgrows : w.Grows x) (u : Thread) :
    (x.closeWindow u (w.openWindow t v core o m).1).1.Sound :=
  hx.of_shifts (shifts_closeWindow x u _)
    (hx.tabled.of_turns hx.lineages hx.orderly (h.turns_closeWindow hm hx hgrows u))

end Windows

end World

/-! ### Every moment -/

/-- Ordinary runs keep worlds sound, lose nothing and write into copies only. -/
theorem kept_sound : Kept (β := β) (fun op => op.IsOrdinary = true) (fun _ _ _ _ => True)
    (fun t => t.world.Sound) (fun t u => t.world.Sound ∧ t.world.Tends u.world) where
  ordinary h := h
  refl ht := ⟨ht, .refl _⟩
  trans hu _ h h' := ⟨h.1, h.2.trans h'.2 h.1.tabled hu.tabled⟩
  note _ ht := ⟨ht, ht, .refl _⟩
  define _ ht hd := ⟨(ht.define hd).1, ht, (ht.define hd).2⟩
  allocate _ ht :=
    ⟨ht.of_onlyObjects (World.onlyObjects_allocate _ _ _), ht,
      (World.onlyObjects_allocate _ _ _).turns.tends⟩
  setField _ ht hf :=
    ⟨ht.of_onlyObjects (World.onlyObjects_setField hf), ht,
      (World.onlyObjects_setField hf).turns.tends⟩
  frame _ ht _ _ := ⟨ht, fun _ hu h => ⟨hu, h⟩⟩
  window {t v m this _ _ _} ht _ _ hr _ _ := by
    have hm := Descriptor.isTrampoline_of_replaced? hr
    have hopen : t.world.Tends (t.begin v (t.world.coreOf v) this m).world :=
      (ht.turns_openWindow hm).tends
    have hsound : (t.begin v (t.world.coreOf v) this m).world.Sound := ht.openWindow hm
    refine ⟨hsound, fun u hu h => ?_⟩
    have hinside := hopen.trans h.2 ht.tabled hsound.tabled
    have hclose : u.world.Turns (u.finish (t.guardFor v (t.world.coreOf v) this m)).world :=
      ht.turns_closeWindow hm hu hinside.grows u.thread
    exact ⟨ht.closeWindow hm hu hinside.grows _, ht, hinside.trans hclose.tends ht.tabled
      hu.tabled⟩
  slot _ _ := trivial
  direct _ _ _ := trivial
  method _ _ _ _ := trivial
  execute _ _ := trivial
  replaced _ _ _ _ := trivial

/-- At every moment of a run of ordinary bodies the world is sound. -/
theorem Reached.sound {host : Host β H} {s : State β (Logged β H)}
    (hb : ∀ b v this args, (host.body b v this args).Uses fun op => op.IsOrdinary = true)
    (hs : Reached host (fun op => op.IsOrdinary = true) s) {w : World β} {th : Thread}
    (hat : s.trail.At w th) : w.Sound :=
  Reached.everywhere (P := fun w _ => w.Sound) kept_sound hb .empty
    (fun _ _ rows hw => hw.newRegistry rows)
    (fun _ _ options core _ hw => hw.newVmAround options core) hs hat

/-! ### What is kept beside soundness -/

/-- Going into a window on a trampoline and out of it. -/
theorem tends_window {t : Trail β} {m : CellRef} (ht : t.world.Sound)
    (hm : (t.world.content m).isTrampoline = true) (v : VmRef) (this : ObjectRef) :
    t.world.Tends (t.begin v (t.world.coreOf v) this m).world ∧
      (t.begin v (t.world.coreOf v) this m).world.Sound ∧
      ∀ u : Trail β, u.world.Sound → (t.begin v (t.world.coreOf v) this m).world.Tends u.world →
        t.world.Tends u.world ∧
        u.world.Tends (u.finish (t.guardFor v (t.world.coreOf v) this m)).world := by
  have hopen : t.world.Tends (t.begin v (t.world.coreOf v) this m).world :=
    (ht.turns_openWindow hm).tends
  have hin : (t.begin v (t.world.coreOf v) this m).world.Sound := ht.openWindow hm
  refine ⟨hopen, hin, fun u hu h => ?_⟩
  have hinside := hopen.trans h ht.tabled hin.tabled
  exact ⟨hinside, (ht.turns_closeWindow hm hu hinside.grows u.thread).tends⟩

/-- An allowed operation on objects. -/
inductive ObjectStep (allowed : Op β → Prop) (w : World β) : World β → Prop
  | allocate {v c} (ha : allowed (.allocate v c)) : ObjectStep allowed w (w.allocate v c).2
  | setField {o i x w'} (ha : allowed (.setField o i x)) (hf : w.setField o i x = .ok w') :
      ObjectStep allowed w w'

theorem ObjectStep.onlyObjects {allowed : Op β → Prop} {w w' : World β}
    (h : ObjectStep allowed w w') : w.OnlyObjects w' := by
  cases h with
  | allocate _ => exact World.onlyObjects_allocate _ _ _
  | setField _ hf => exact World.onlyObjects_setField hf

section Upheld

variable {allowed : Op β → Prop} {Q : World β → Prop} {S : World β → World β → Prop}

/-- A property of sound worlds and a relation between them that every step keeps: setting up,
defining a class, working on objects, and going into a window and out of it. -/
structure Upheld (allowed : Op β → Prop) (Q : World β → Prop) (S : World β → World β → Prop) :
    Prop where
  ordinary : ∀ {op}, allowed op → op.IsOrdinary = true
  start : Q {}
  refl : ∀ {w}, S w w
  trans : ∀ {w x y : World β}, w.Sound → x.Sound → w.Tends x → x.Tends y → S w x → S x y → S w y
  registry : ∀ {w : World β} (rows), w.Sound → Q w →
    Q (w.newRegistry rows).2 ∧ S w (w.newRegistry rows).2
  machine : ∀ {w : World β} (options core), w.Sound → Q w →
    Q (w.newVmAround options core).2 ∧ S w (w.newVmAround options core).2
  define : ∀ {w w' : World β} {v d c}, w.Sound → Q w → w.define v d = .ok (c, w') →
    Q w' ∧ S w w'
  objects : ∀ {w w' : World β}, w.Sound → Q w → ObjectStep allowed w w' → Q w' ∧ S w w'
  opening : ∀ {w : World β} {th v this m handler}, w.Sound → Q w →
    (w.content m).isTrampoline = true → w.handlerOf v (w.coreOf v) this = some handler →
    Q (w.openWindow th v (w.coreOf v) this m).2.1 ∧
      S w (w.openWindow th v (w.coreOf v) this m).2.1
  closing : ∀ {w x : World β} {th v this m handler u}, w.Sound → Q w →
    (w.content m).isTrampoline = true → w.handlerOf v (w.coreOf v) this = some handler →
    x.Sound → Q x → w.Tends x → S (w.openWindow th v (w.coreOf v) this m).2.1 x →
    Q (x.closeWindow u (w.openWindow th v (w.coreOf v) this m).1).1 ∧
      S x (x.closeWindow u (w.openWindow th v (w.coreOf v) this m).1).1

namespace Upheld

theorem kept (k : Upheld allowed Q S) : Kept allowed (fun _ _ _ _ => True)
    (fun t => t.world.Sound ∧ Q t.world)
    (fun t u => (t.world.Sound ∧ t.world.Tends u.world) ∧ S t.world u.world) where
  ordinary := k.ordinary
  refl ht := ⟨kept_sound.refl ht.1, k.refl⟩
  trans hu hx h h' :=
    ⟨kept_sound.trans hu.1 hx.1 h.1 h'.1, k.trans h.1.1 hu.1 h.1.2 h'.1.2 h.2 h'.2⟩
  note he ht := by
    have h := kept_sound.note he ht.1
    exact ⟨⟨h.inv, ht.2⟩, h.rel, k.refl⟩
  define ha ht hd := by
    have h := kept_sound.define (k.ordinary ha) ht.1 hd
    obtain ⟨hq, hs⟩ := k.define ht.1 ht.2 hd
    exact ⟨⟨h.inv, hq⟩, h.rel, hs⟩
  allocate {t v c} ha ht := by
    have h := kept_sound.allocate (t := t) (v := v) (c := c) (k.ordinary ha) ht.1
    obtain ⟨hq, hs⟩ := k.objects ht.1 ht.2 (.allocate ha)
    exact ⟨⟨h.inv, hq⟩, h.rel, hs⟩
  setField ha ht hf := by
    have h := kept_sound.setField (k.ordinary ha) ht.1 hf
    obtain ⟨hq, hs⟩ := k.objects ht.1 ht.2 (.setField ha hf)
    exact ⟨⟨h.inv, hq⟩, h.rel, hs⟩
  frame _ ht _ _ := ⟨ht, fun _ hu h => ⟨hu, h⟩⟩
  window {t v m this _ _ _} ht hmay he hr hw hh := by
    have hm := Descriptor.isTrampoline_of_replaced? hr
    obtain ⟨hin, hout⟩ := kept_sound.window ht.1 hmay he hr hw hh
    obtain ⟨hopen, -, hwindow⟩ := tends_window ht.1 hm v this
    have hopening : Q (t.begin v (t.world.coreOf v) this m).world ∧
        S t.world (t.begin v (t.world.coreOf v) this m).world := k.opening ht.1 ht.2 hm hh
    obtain ⟨hq, hs⟩ := hopening
    refine ⟨⟨hin, hq⟩, fun u hu h => ?_⟩
    have hclosed := hout u hu.1 h.1
    obtain ⟨hinside, hfinish⟩ := hwindow u hu.1 h.1.2
    obtain ⟨hq', hs'⟩ := k.closing (u := u.thread) ht.1 ht.2 hm hh hu.1 hu.2 hinside h.2
    exact ⟨⟨hclosed.inv, hq'⟩, hclosed.rel, k.trans ht.1 hu.1 hinside hfinish
      (k.trans ht.1 hin hopen h.1.2 hs h.2) hs'⟩
  slot _ _ := trivial
  direct _ _ _ := trivial
  method _ _ _ _ := trivial
  execute _ _ := trivial
  replaced _ _ _ _ := trivial

/-- It holds of all worlds of a run, and of each with respect to all the later ones. -/
theorem ordered (k : Upheld allowed Q S) {host : Host β H} {s : State β (Logged β H)}
    (hb : ∀ b v this args, (host.body b v this args).Uses allowed)
    (hs : Reached host allowed s) :
    s.trail.Ordered (fun w => w.Sound ∧ Q w) fun w w' => (w.Sound ∧ w.Tends w') ∧ S w w' := by
  refine Reached.ordered (k.kept.ordered fun {t v m this replaced handler} ht _ hr hh => ?_) hb
    ⟨.empty, k.start⟩ (fun hw => ⟨⟨hw.1, .refl _⟩, k.refl⟩) (fun {w x y} hx _ h h' => ?_) ?_ ?_ hs
  · have hm := Descriptor.isTrampoline_of_replaced? hr
    obtain ⟨hopen, -, hwindow⟩ := tends_window ht.1 hm v this
    refine ⟨⟨⟨ht.1, hopen⟩, (k.opening ht.1 ht.2 hm hh).2⟩, fun u hu h => ?_⟩
    obtain ⟨hinside, hfinish⟩ := hwindow u hu.1 h.1.2
    exact ⟨⟨hu.1, hfinish⟩, (k.closing ht.1 ht.2 hm hh hu.1 hu.2 hinside h.2).2⟩
  · exact ⟨⟨h.1.1, h.1.2.trans h'.1.2 h.1.1.tabled hx.1.tabled⟩,
      k.trans h.1.1 hx.1 h.1.2 h'.1.2 h.2 h'.2⟩
  · intro w rows hw
    obtain ⟨hq, hs⟩ := k.registry rows hw.1 hw.2
    exact ⟨⟨hw.1.newRegistry rows, hq⟩, ⟨hw.1, World.Sound.tends_newRegistry w rows⟩, hs⟩
  · intro w options core _ hw
    obtain ⟨hq, hs⟩ := k.machine options core hw.1 hw.2
    exact ⟨⟨hw.1.newVmAround options core, hq⟩, ⟨hw.1, hw.1.tends_newVmAround options core⟩, hs⟩

theorem everywhere (k : Upheld allowed Q S) {host : Host β H} {s : State β (Logged β H)}
    (hb : ∀ b v this args, (host.body b v this args).Uses allowed)
    (hs : Reached host allowed s) {w : World β} {th : Thread} (hat : s.trail.At w th) :
    w.Sound ∧ Q w :=
  (k.ordered hb hs).each w hat.mem_worlds

/-- Where nothing is said of a step but that the world tends that way. -/
theorem keeps (k : Upheld allowed Q fun _ _ => True) : Kept allowed (fun _ _ _ _ => True)
    (fun t => t.world.Sound ∧ Q t.world) (fun t u => t.world.Sound ∧ t.world.Tends u.world) :=
  k.kept.reword Iff.rfl Iff.rfl (Iff.of_eq (and_true _))

end Upheld

end Upheld

end Interception
