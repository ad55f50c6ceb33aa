/-
What windows leave alone.

A class-wide window borrows one cell, its trampoline, and gives it back as it found it.  So
whatever holds of the copies that patching made, and depends on nothing but what they hold,
holds of each of them at every moment but those at which the cell is borrowed.

Two things are of that kind.  A copy that is listed for its row stands for the very cell it
was made from.  And a copy is owned by a class on the lineage of the class it was made for;
this only if no class is made inside a window, where patching would copy what is borrowed.
-/
import Interception.Proofs.Openings
import Interception.Proofs.Resting

namespace Interception

variable {β H : Type}

/-- The cell is the trampoline of a window in progress. -/
def Lent (log : List (Moment β)) (m : CellRef) : Prop :=
  ∃ g ∈ inProgress log, g.isPassthrough = false ∧ g.trampoline = m

instance (log : List (Moment β)) (m : CellRef) : Decidable (Lent log m) :=
  inferInstanceAs (Decidable (∃ g ∈ inProgress log, g.isPassthrough = false ∧ g.trampoline = m))

/-- Something that holds of copies when they are made, and then for as long as they hold the
same. -/
structure Inherent (allowed : Op β → Prop) (P : World β → CellRef → Prop) : Prop where
  ordinary : ∀ {op}, allowed op → op.IsOrdinary = true
  stays : ∀ {w w' : World β} {m}, w.Sound → w.Tends w' → w.Copied m →
    w'.content m = w.content m → P w m → P w' m
  made : ∀ {w w' : World β} {v d c m}, allowed (.define v d) → w.Sound →
    w.define v d = .ok (c, w') → w'.Copied m → ¬ w.cells.Live m → P w' m

/-- It holds of every copy that is not lent. -/
def Trail.Intact (P : World β → CellRef → Prop) (t : Trail β) : Prop :=
  ∀ m, t.world.Copied m → ¬ Lent t.log m → P t.world m

/-- A copy that was there before was a copy then. -/
theorem World.Copied.of_tends {w w' : World β} {m : CellRef} (h : w'.Copied m) (hw : w.Sound)
    (ht : w.Tends w') (hm : w.cells.Live m) : w.Copied m := by
  by_contra hno
  exact ht.not_copied hw.tabled hm hno h

namespace Inherent

variable {allowed : Op β → Prop} {P : World β → CellRef → Prop} {t u : Trail β}

/-- A step that leaves what is not lent as it is. -/
theorem step (k : Inherent allowed P) (h : t.Intact P) (hw : t.world.Sound)
    (htends : t.world.Tends u.world) (hlent : ∀ {m}, ¬ Lent u.log m → ¬ Lent t.log m)
    (hsame : ∀ {m}, t.world.cells.Live m → ¬ Lent u.log m →
      u.world.content m = t.world.content m)
    (hmade : ∀ {m}, u.world.Copied m → ¬ t.world.cells.Live m → ¬ Lent u.log m → P u.world m) :
    u.Intact P := by
  intro m hm hfree
  by_cases hlive : t.world.cells.Live m
  · have hcopied := hm.of_tends hw htends hlive
    exact k.stays hw htends hcopied (hsame hlive hfree) (h m hcopied (hlent hfree))
  · exact hmade hm hlive hfree

/-- A step that makes no copies. -/
theorem step_old (k : Inherent allowed P) (h : t.Intact P) (hw : t.world.Sound)
    (htends : t.world.Tends u.world) (hlent : ∀ {m}, ¬ Lent u.log m → ¬ Lent t.log m)
    (hsame : ∀ {m}, t.world.cells.Live m → ¬ Lent u.log m →
      u.world.content m = t.world.content m)
    (hres : ∀ {g i r}, u.world.Resolves g i r → t.world.Resolves g i r) : u.Intact P := by
  refine k.step h hw htends hlent hsame fun {m} hm hlive _ => ?_
  obtain ⟨g, i, r, j, hr, hj⟩ := hm
  have hr' := hres hr
  rw [htends.grows.table_intercepted hw.tabled hr'] at hj
  exact absurd ((hw.tabled.intercepted hr').live_of_mem hj) hlive

/-- Changes to objects. -/
theorem onlyObjects (k : Inherent allowed P) (h : t.Intact P) (hw : t.world.Sound) {w : World β}
    (ho : t.world.OnlyObjects w) : ({ t with world := w } : Trail β).Intact P :=
  k.step_old h hw ho.turns.tends (fun hm => hm) (fun hm _ => (ho.toExtends 0).content hm)
    ho.turns.resolves

/-- An event outside windows. -/
theorem outside (k : Inherent allowed P) (h : t.Intact P) (hw : t.world.Sound) {e : Event β}
    (he : e.OutsideWindows) (th : Thread) :
    (({ t with thread := th } : Trail β).note e).Intact P := by
  refine k.step_old h hw (.refl _) (fun hm => ?_) (fun _ _ => rfl) fun hr => hr
  rwa [Lent, ← inProgress_cons he t.world th t.log]

/-- Opening a window leaves all but its trampoline, which is lent. -/
theorem begin (k : Inherent allowed P) (h : t.Intact P) (hw : t.world.Sound) {v : VmRef}
    {this : ObjectRef} {m : CellRef} (htramp : (t.world.content m).isTrampoline = true) :
    (t.begin v (t.world.coreOf v) this m).Intact P := by
  have hshifts := World.shifts_openWindow t.world t.thread v (t.world.coreOf v) this m
  refine k.step_old h hw (hw.turns_openWindow htramp).tends (fun {n} hn hlent => ?_)
    (fun {n} _ hn => ?_) hshifts.resolves.mp
  · obtain ⟨g, hg, hpass, hm⟩ := hlent
    exact hn ⟨g, List.mem_cons_of_mem _ hg, hpass, hm⟩
  · cases hpass : (t.guardFor v (t.world.coreOf v) this m).isPassthrough with
    | true => exact congrArg (World.content · n) (World.openWindow_of_isPassthrough hpass)
    | false =>
      refine World.content_openWindow_of_ne fun hnm => hn ?_
      exact ⟨_, List.mem_cons_self, hpass, (trampoline_guardFor t v _ this m).trans hnm.symm⟩

/-- Closing it brings back what was there, and leaves alone what was made since. -/
theorem finish (k : Inherent allowed P) (h : t.Intact P) (hw : t.world.Sound) {v : VmRef}
    {this : ObjectRef} {m : CellRef} (htramp : (t.world.content m).isTrampoline = true)
    (hu : u.Intact P) (hus : u.world.Sound) (hinside : t.world.Tends u.world)
    (hcalls : inProgress u.log = t.guardFor v (t.world.coreOf v) this m :: inProgress t.log)
    (hsettles : Settles t (u.finish (t.guardFor v (t.world.coreOf v) this m))) :
    (u.finish (t.guardFor v (t.world.coreOf v) this m)).Intact P := by
  have hclose : u.world.Tends (u.finish (t.guardFor v (t.world.coreOf v) this m)).world :=
    (hw.turns_closeWindow htramp hus hinside.grows u.thread).tends
  have hresolves : ∀ {g i r},
      (u.finish (t.guardFor v (t.world.coreOf v) this m)).world.Resolves g i r →
        u.world.Resolves g i r := (World.shifts_closeWindow u.world u.thread _).resolves.mp
  have hlog : inProgress (u.finish (t.guardFor v (t.world.coreOf v) this m)).log =
      inProgress t.log := inProgress_finish hcalls
  have hlive := (hw.tabled.copied htramp).live hw.tabled
  refine k.step h hw (hinside.trans hclose hw.tabled hus.tabled) (fun {n} hn => ?_)
    (fun {n} hn _ => hsettles.contents n hn) fun {n} hn hnew hfree => ?_
  · rwa [Lent, hlog] at hn
  · have hne : n ≠ m := fun heq => hnew (heq ▸ hlive)
    have hguard := trampoline_guardFor t v (t.world.coreOf v) this m
    -- What was made inside the window is not its trampoline.
    have hcopied : u.world.Copied n := by
      obtain ⟨g, i, r, j, hr, hj⟩ := hn
      rw [hclose.grows.table_intercepted hus.tabled (hresolves hr)] at hj
      exact ⟨g, i, r, j, hresolves hr, hj⟩
    refine k.stays hus hclose hcopied (World.content_closeWindow_of_ne (hguard.symm ▸ hne))
      (hu n hcopied ?_)
    rintro ⟨g, hg, hpass, hgn⟩
    rw [hcalls] at hg
    rcases List.mem_cons.mp hg with rfl | hg
    · exact hne (hgn.symm.trans hguard)
    · exact hfree ⟨g, hlog ▸ hg, hpass, hgn⟩

/-- So it holds of every copy that is not lent at every moment. -/
theorem kept (k : Inherent allowed P) : Kept allowed (fun _ _ _ _ => True)
    (fun t => t.world.Sound ∧ t.Intact P)
    (fun t u => ((t.world.Sound ∧ t.world.Tends u.world) ∧ Settles t u) ∧
      inProgress u.log = inProgress t.log) := by
  have b := ((kept_sound (β := β).both kept_settles).both kept_inProgress).restrict k.ordinary
  have inv : ∀ {t : Trail β}, t.world.Sound ∧ t.Intact P →
      (t.world.Sound ∧ t.world.Orderly) ∧ True := fun ht => ⟨⟨ht.1, ht.1.orderly⟩, trivial⟩
  exact
    { ordinary := k.ordinary
      refl := fun ht => b.refl (inv ht)
      trans := fun hu hx h h' => b.trans (inv hu) (inv hx) h h'
      note := by
        intro t e he ht
        have h := b.note he (inv ht)
        exact ⟨⟨h.inv.1.1, k.outside ht.2 ht.1 he.outsideWindows t.thread⟩, h.rel⟩
      define := by
        intro t v d c w ha ht hd
        have h := b.define ha (inv ht) hd
        refine ⟨⟨h.inv.1.1, ?_⟩, h.rel⟩
        exact k.step ht.2 ht.1 h.rel.1.1.2 (fun hm => hm)
          (fun hm _ => (World.extends_define hd).content hm)
          fun hm hnew _ => k.made ha ht.1 hd hm hnew
      allocate := by
        intro t v c ha ht
        have h := b.allocate (v := v) (c := c) ha (inv ht)
        exact ⟨⟨h.inv.1.1, k.onlyObjects ht.2 ht.1 (World.onlyObjects_allocate t.world v c)⟩,
          h.rel⟩
      setField := by
        intro t o i x w ha ht hf
        have h := b.setField ha (inv ht) hf
        exact ⟨⟨h.inv.1.1, k.onlyObjects ht.2 ht.1 (World.onlyObjects_setField hf)⟩, h.rel⟩
      frame := by
        intro t v m this args ht hm hd
        obtain ⟨hin, hout⟩ := b.frame args (inv ht) ⟨⟨trivial, trivial⟩, trivial⟩ hd
        refine ⟨⟨hin.1.1, k.outside (e := .entered v m this args) ht.2 ht.1 trivial _⟩,
          fun u hu h => ?_⟩
        have h' := hout u (inv hu) h
        exact ⟨⟨h'.inv.1.1, k.outside (e := .left v m this) hu.2 hu.1 trivial _⟩, h'.rel⟩
      window := by
        intro t v m this args replaced handler ht hm he hr hw hh
        have htramp := Descriptor.isTrampoline_of_replaced? hr
        obtain ⟨hin, hout⟩ := b.window (inv ht) ⟨⟨trivial, trivial⟩, trivial⟩ he hr hw hh
        refine ⟨⟨hin.1.1, k.begin ht.2 ht.1 htramp⟩, fun u hu h => ?_⟩
        have h' := hout u (inv hu) h
        obtain ⟨-, -, hwindow⟩ := tends_window ht.1 htramp v this
        exact ⟨⟨h'.inv.1.1, k.finish ht.2 ht.1 htramp hu.2 hu.1 (hwindow u hu.1 h.1.1.2).1 h.2
          h'.rel.1.2⟩, h'.rel⟩
      slot := fun _ _ => trivial
      direct := fun _ _ _ => trivial
      method := fun _ _ _ _ => trivial
      execute := fun _ _ => trivial
      replaced := fun _ _ _ _ => trivial }

end Inherent

namespace World

variable {w w' : World β} {g : RegistryRef} {i : Nat} {r : Resolution} {c : ClassRef} {m : CellRef}

/-! ### What a copy was made from -/

/-- A copy that is listed for its row is a trampoline before the cell it was made from. -/
def StandsFor (w : World β) (m : CellRef) : Prop :=
  ∀ {g i r} {k : Nat} {o : CellRef}, w.Resolves g i r →
    (w.tables.get r.intercepted)[k]? = some m → (w.tables.get r.unpatched)[k]? = some o →
    (w.entry g i).row.intercepts (w.content m).name = true → (w.content m).replaced? = some o

/-- An entry that has a copy from before was filled in before. -/
theorem Copied.resolves {k : Nat} (hw : w.Sound) (ht : w.Tends w') (hm : w.Copied m)
    (hr : w'.Resolves g i r) (hk : (w'.tables.get r.intercepted)[k]? = some m) :
    w.Resolves g i r ∧ (w.tables.get r.intercepted)[k]? = some m := by
  have hold := ht.copies (hm.live hw.tabled) hr hk
  rw [ht.grows.table_intercepted hw.tabled hold] at hk
  exact ⟨hold, hk⟩

/-- Patching makes copies that do. -/
theorem Equips.standsFor (h : w.Equips w') (hw : w.Sound)
    (hext : Extends w.classes.size w w') (hnew : ¬ w.cells.Live m) : w'.StandsFor m := by
  intro g i r k o hr hm ho hlisted
  rcases hext.newly hr with hold | hfresh
  · rw [hext.grows.table_intercepted hw.tabled hold] at hm
    exact absurd ((hw.tabled.intercepted hold).live_of_mem hm) hnew
  · have hcopy := h.copies hr (Nat.not_lt_of_le hfresh) hm ho
    rw [hcopy, Row.name_copyOf] at hlisted
    rw [hcopy, Row.copyOf, if_pos hlisted]
    rfl

theorem inherent_standsFor : Inherent (β := β) (fun op => op.IsOrdinary = true) StandsFor where
  ordinary h := h
  stays hw ht hm hsame h := by
    intro g i r k o hr hmk ho hlisted
    obtain ⟨hold, hmk⟩ := hm.resolves hw ht hr hmk
    rw [ht.grows.table_unpatched hw.tabled hold] at ho
    rw [ht.grows.rows g i hold.live, hsame] at hlisted
    rw [hsame]
    exact h hold hmk ho hlisted
  made _ hw hd _ hnew := (Equips.define hw hd).standsFor hw (extends_define hd) hnew

/-! ### Who owns a copy -/

/-- A copy is owned by a class on the lineage of the class it was made for. -/
def OwnedAbove (w : World β) (m : CellRef) : Prop :=
  ∀ {g i r} {k : Nat}, w.Resolves g i r → (w.tables.get r.intercepted)[k]? = some m →
    w.derivesFrom r.cls (w.content m).owner = true

theorem Grows.derivesFrom (hg : w.Grows w') (hl : w.Lineages) (hc : w.classes.Live c) (n : Nat) :
    w'.derivesFrom c n = w.derivesFrom c n := by
  rw [World.derivesFrom, hg.lineage hc, World.derivesFrom, Bool.eq_iff_iff, List.any_eq_true,
    List.any_eq_true]
  refine exists_congr fun a => and_congr_right fun ha => ?_
  rw [(hg.classes a (hl.live_of_mem_lineage hc ha)).2.number]

/-- Whatever a class derives from, those below it do. -/
theorem Lineages.derivesFrom_of_mem (hl : w.Lineages) {a : ClassRef} (ha : a ∈ w.lineage c)
    {n : Nat} (h : w.derivesFrom a n = true) : w.derivesFrom c n = true := by
  rw [World.derivesFrom, List.any_eq_true] at h ⊢
  obtain ⟨b, hb, hn⟩ := h
  exact ⟨b, hl.mem_lineage_trans hb ha, hn⟩

/-- Where copies are exact, they are. -/
theorem Sound.ownedAbove (hw : w.Sound) (he : w.Exact) (m : CellRef) : w.OwnedAbove m := by
  intro g i r k hr hk
  obtain ⟨name, hname⟩ :=
    (hw.tabled.intercepted hr).named (List.getElem?_eq_some_iff.mp hk).1
  obtain ⟨o, ho⟩ := (hw.tabled.unpatched hr).exists_cell hname
  obtain ⟨n, u, hends, hu⟩ := hw.endsAt_unpatched he hr ho hname
  have hcopy : w.content m = Row.copyOf _ _ _ := he.related hr hk ho
  have howner : (w.content m).owner = (w.content u).owner := by
    rw [hcopy, Row.owner_copyOf, hends.content hw he]
  rw [howner]
  exact derivesFrom_declared hu

theorem inherent_ownedAbove :
    Inherent (β := β) (fun op => op.KeepsClasses = true) OwnedAbove where
  ordinary := Op.KeepsClasses.isOrdinary
  stays hw ht hm hsame h := by
    intro g i r k hr hmk
    obtain ⟨hold, hmk⟩ := hm.resolves hw ht hr hmk
    rw [ht.grows.derivesFrom hw.lineages (hw.orderly.live hold), hsame]
    exact h hold hmk
  made ha := by cases ha

end World

/-! ### Every moment -/

section Reached

variable {host : Host β H} {s : State β (Logged β H)}

/-- At every event of a run of ordinary bodies, what is listed and not lent stands for what it
was made from. -/
theorem Reached.standsFor
    (hb : ∀ b v this args, (host.body b v this args).Uses fun op => op.IsOrdinary = true)
    (hs : Reached host (fun op => op.IsOrdinary = true) s) :
    s.trail.Always fun t => t.world.Sound ∧ t.Intact World.StandsFor := by
  have k := World.inherent_standsFor (β := β)
  have extend : ∀ {t : Trail β} {w : World β}, t.world.Sound ∧ t.Intact World.StandsFor →
      w.Sound → t.world.Tends w → World.Extends t.world.classes.size t.world w →
      t.world.Equips w → w.Sound ∧ Trail.Intact World.StandsFor { t with world := w } :=
    fun ht hw htends hext hequips => by
      refine ⟨hw, k.step ht.2 ht.1 htends (fun hm => hm) (fun hm _ => hext.content hm) ?_⟩
      exact fun _ hnew _ => hequips.standsFor ht.1 hext hnew
  refine (Reached.always k.kept hb ?_ ?_ ?_ hs).imp And.left
  · refine ⟨.empty, fun m hm => ?_⟩
    obtain ⟨g, i, r, j, hr, -⟩ := hm
    exact absurd hr.live (Nat.not_lt_zero _)
  · exact fun t rows ht => extend ht (ht.1.newRegistry rows) (World.Sound.tends_newRegistry _ rows)
      (World.extends_newRegistry _ t.world rows)
      (.of_resolves ht.1.orderly World.resolves_newRegistry)
  · exact fun t options core _ ht => extend ht (ht.1.newVmAround options core)
      (ht.1.tends_newVmAround options core) (World.extends_newVmAround t.world options core)
      (.newVmAround ht.1 options core)

/-- Where bodies define no class, at every event what is not lent is owned as it should be. -/
theorem Reached.ownedAbove
    (hb : ∀ b v this args, (host.body b v this args).Uses fun op => op.KeepsClasses = true)
    (hs : Reached host (fun op => op.IsOrdinary = true) s) :
    s.trail.Always fun t => t.world.Sound ∧ t.Intact World.OwnedAbove := by
  have k := (World.inherent_ownedAbove (β := β)).kept.always
  -- Between operations no window is open and copies are exact.
  let Rests : Trail β → Prop := fun t => (t.world.Sound ∧ t.world.Exact) ∧
    inProgress t.log = [] ∧ t.Always fun t => t.world.Sound ∧ t.Intact World.OwnedAbove
  have intact : ∀ {t : Trail β}, Rests t → t.world.Sound ∧ t.Intact World.OwnedAbove :=
    fun ht => ⟨ht.1.1, fun m _ _ => ht.1.1.ownedAbove ht.1.2 m⟩
  have op : ∀ {n : Nat} {op : Op β} {s : State β (Logged β H)}, op.IsOrdinary = true →
      Rests s.trail → Rests (op.run host.logged (execute host.logged n) s).2.trail := by
    intro n op s hop ht
    have hexact := exact_op hb n hop ht.1
    refine ⟨hexact, ?_⟩
    by_cases hkeeps : op.KeepsClasses = true
    · have h := k.op host (k.runs_execute hb n) hkeeps s ⟨intact ht, ht.2.2⟩
      exact ⟨h.rel.2.trans ht.2.1, h.inv.2⟩
    · cases op with
      | define v d =>
        simp only [Op.run]
        split <;> exact ht.2
      | _ => first | exact absurd rfl hkeeps | cases hop
  have rests : Rests s.trail := by
    induction hs with
    | start h =>
      refine ⟨⟨.empty, .empty⟩, rfl, fun newer x older hlog => ?_⟩
      cases newer <;> cases hlog
    | registry _ rows ih =>
      exact ⟨⟨ih.1.1.newRegistry rows, ih.1.2.newRegistry ih.1.1 rows⟩, ih.2⟩
    | machine _ options core _ ih =>
      exact ⟨⟨ih.1.1.newVmAround options core,
        ih.1.2.newVmAround (fun _ _ _ => rfl) ih.1.1 options core⟩, ih.2⟩
    | @run s _ _ p hp ih =>
      refine p.lift_induct (P := Rests) op (fun {t o} ht => ?_) hp s ih
      have hcalls := inProgress_cons (e := .performed o) trivial t.world t.thread t.log
      refine ⟨ht.1, hcalls.trans ht.2.1, fun newer x older hlog => ?_⟩
      cases newer with
      | nil =>
        obtain ⟨rfl, rfl⟩ := List.cons.inj hlog
        exact ⟨ht.1.1, fun m _ _ => ht.1.1.ownedAbove ht.1.2 m⟩
      | cons y rest => exact ht.2.2 rest x older (List.cons.inj hlog).2
  exact rests.2.2

end Reached

end Interception
