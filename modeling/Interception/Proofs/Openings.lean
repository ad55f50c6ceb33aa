/-
What cells hold inside a window.

A record tells which windows are in progress at any moment; `openings` reads off the moments
at which they were opened.  Everything done since the innermost of them has been tidied up
again, so cells hold now what they held right after that opening.  Going outwards, a cell holds
what it held at the opening of a window as long as none inside was opened through it.

And what it held there is known: the trampoline shows, over the whole class, what the
receiver's nearest row replaced in the trampoline's slot, and otherwise what it held before.
-/
import Interception.Proofs.Returns

namespace Interception

variable {β H : Type}

/-! ### Earlier trails -/

/-- It held at every event, of the record up to there. -/
def Trail.Always (P : Trail β → Prop) (t : Trail β) : Prop :=
  ∀ newer x older, t.log = newer ++ x :: older → P ⟨x.world, x.thread, x :: older⟩

theorem Trail.Always.imp {P Q : Trail β → Prop} {t : Trail β} (h : t.Always P)
    (hPQ : ∀ {u}, P u → Q u) : t.Always Q :=
  fun newer x older hlog => hPQ (h newer x older hlog)

/-- A run that had come so far opened a window at this moment. -/
structure Trail.Opens (t : Trail β) (v : VmRef) (m : CellRef) (this handler : ObjectRef)
    (x : Moment β) : Prop where
  entered : ∃ args, t.Entered v m this args
  trampoline : (t.world.content m).isTrampoline = true
  handled : t.world.handlerOf v (t.world.coreOf v) this = some handler
  moment : x = ⟨.opened (t.guardFor v (t.world.coreOf v) this m),
    (t.begin v (t.world.coreOf v) this m).world, (t.begin v (t.world.coreOf v) this m).thread⟩

/-- If the last event opened a window, then in a good trail, by a call that could be made. -/
def Trail.Begun (May : World β → VmRef → CellRef → ObjectRef → Prop) (Inv : Trail β → Prop)
    (u : Trail β) : Prop :=
  ∀ x older g, u.log = x :: older → x.event = .opened g → ∃ t v handler, t.log = older ∧
    t.Opens v g.trampoline g.receiver handler x ∧ May t.world v g.trampoline g.receiver ∧ Inv t

theorem receiver_guardFor (t : Trail β) (v : VmRef) (core : Core) (this : ObjectRef)
    (m : CellRef) : (t.guardFor v core this m).receiver = this := by
  have hopens := World.opens_openWindow t.world t.thread v core this m
  unfold Trail.guardFor
  generalize t.world.openWindow t.thread v core this m = x at hopens ⊢
  cases hopens <;> rfl

section Begun

variable {allowed : Op β → Prop} {May : World β → VmRef → CellRef → ObjectRef → Prop}
  {Inv : Trail β → Prop} {R : Trail β → Trail β → Prop}

/-- What is kept held at every event. -/
theorem Kept.always (k : Kept allowed May Inv R) :
    Kept allowed May (fun t => Inv t ∧ t.Always Inv) R := by
  refine k.alongside fun {t u} ht hu hlog newer x older hsplit => ?_
  rcases hlog with hlog | ⟨e, hlog⟩
  · exact ht newer x older (hlog.symm.trans hsplit)
  · cases newer with
    | nil =>
      obtain ⟨rfl, rfl⟩ := List.cons.inj (hlog.symm.trans hsplit)
      rw [← hlog]
      exact hu
    | cons y rest => exact ht rest x older (List.cons.inj (hlog.symm.trans hsplit)).2

/-- And what was kept when a window was opened can be told from the opening. -/
theorem Kept.begun (k : Kept allowed May Inv R) :
    Kept allowed May (fun t => Inv t ∧ t.Begun May Inv) R := by
  -- Only one kind of event opens a window.
  have other : ∀ {t : Trail β} {e : Event β} {th : Thread} {w : World β},
      (∀ g, e ≠ .opened g) → Trail.Begun May Inv ⟨w, th, ⟨e, w, th⟩ :: t.log⟩ :=
    fun {t e th w} he x older g hlog hx => by
      obtain ⟨rfl, -⟩ := List.cons.inj hlog
      exact absurd hx (he g)
  exact
    { ordinary := k.ordinary
      refl := fun ht => k.refl ht.1
      trans := fun hu hx h h' => k.trans hu.1 hx.1 h h'
      note := by
        intro t e he ht
        have h := k.note he ht.1
        refine ⟨⟨h.inv, other (t := t) fun g hg => ?_⟩, h.rel⟩
        rw [hg] at he
        exact he
      define := by
        intro _ _ _ _ _ ha ht hd
        have h := k.define ha ht.1 hd
        exact ⟨⟨h.inv, ht.2⟩, h.rel⟩
      allocate := by
        intro _ _ _ ha ht
        have h := k.allocate ha ht.1
        exact ⟨⟨h.inv, ht.2⟩, h.rel⟩
      setField := by
        intro _ _ _ _ _ ha ht hf
        have h := k.setField ha ht.1 hf
        exact ⟨⟨h.inv, ht.2⟩, h.rel⟩
      frame := by
        intro t v m this args ht hm hd
        obtain ⟨hin, hout⟩ := k.frame args ht.1 hm hd
        refine ⟨⟨hin, other (t := t) fun g hg => by cases hg⟩, fun u hu h => ?_⟩
        have h' := hout u hu.1 h
        exact ⟨⟨h'.inv, other (t := u) fun g hg => by cases hg⟩, h'.rel⟩
      window := by
        intro t v m this args replaced handler ht hm he hr hw hh
        obtain ⟨hin, hout⟩ := k.window ht.1 hm he hr hw hh
        refine ⟨⟨hin, fun x older g hlog hx => ?_⟩, fun u hu h => ?_⟩
        · obtain ⟨rfl, rfl⟩ := List.cons.inj hlog
          cases hx
          rw [trampoline_guardFor, receiver_guardFor]
          exact ⟨t, v, handler, rfl,
            ⟨⟨args, he⟩, Descriptor.isTrampoline_of_replaced? hr, hh, rfl⟩, hm, ht.1⟩
        · have h' := hout u hu.1 h
          exact ⟨⟨h'.inv, other (t := u) fun g hg => by cases hg⟩, h'.rel⟩
      slot := fun ht hm => k.slot ht.1 hm
      direct := fun ha ht hm => k.direct ha ht.1 hm
      method := fun ha ht hrec hacc => k.method ha ht.1 hrec hacc
      execute := fun ha ht => k.execute ha ht.1
      replaced := fun ht hm hr hway => k.replaced ht.1 hm hr hway }

/-- So in every state reached, it held at every event, and so did what was kept when a window
was opened there. -/
theorem Reached.always {host : Host β H} (k : Kept allowed May Inv R)
    (hb : ∀ b v this args, (host.body b v this args).Uses allowed)
    (hstart : Inv ⟨{}, {}, []⟩)
    (hregistry : ∀ t rows, Inv t → Inv { t with world := (t.world.newRegistry rows).2 })
    (hmachine : ∀ t options core, t.world.registries.Live core.registry → Inv t →
      Inv { t with world := (t.world.newVmAround options core).2 })
    {s : State β (Logged β H)} (hs : Reached host allowed s) :
    s.trail.Always fun t => Inv t ∧ t.Begun May Inv := by
  refine (Reached.inv k.begun.always hb ?_ ?_ ?_ hs).2
  · refine ⟨⟨hstart, fun x older g hlog => by cases hlog⟩, fun newer x older hlog => ?_⟩
    cases newer <;> cases hlog
  · exact fun t rows ht => ⟨⟨hregistry t rows ht.1.1, ht.1.2⟩, ht.2⟩
  · exact fun t options core hcore ht => ⟨⟨hmachine t options core hcore ht.1.1, ht.1.2⟩, ht.2⟩

end Begun

/-! ### Windows in progress -/

/-- The moments at which the windows in progress were opened, innermost first. -/
def openings : List (Moment β) → List (Moment β)
  | [] => []
  | x :: older =>
    match x.event with
    | .opened _ => x :: openings older
    | .closed _ => (openings older).tail
    | _ => openings older

theorem openings_cons {e : Event β} (he : e.OutsideWindows) (w : World β) (th : Thread)
    (log : List (Moment β)) : openings (⟨e, w, th⟩ :: log) = openings log := by
  cases e with
  | opened g => cases he
  | closed g => cases he
  | _ => rfl

/-- Where a window in progress was opened, those around it were in progress. -/
theorem openings_split {log inner outer : List (Moment β)} {x : Moment β}
    (h : openings log = inner ++ x :: outer) :
    ∃ newer older g, log = newer ++ x :: older ∧ openings older = outer ∧
      x.event = .opened g := by
  induction log generalizing inner with
  | nil => simp [openings] at h
  | cons y rest ih =>
    have earlier : ∀ {inner}, openings rest = inner ++ x :: outer → ∃ newer older g,
        y :: rest = newer ++ x :: older ∧ openings older = outer ∧ x.event = .opened g :=
      fun h => by
        obtain ⟨newer, older, g, hlog, houter, hx⟩ := ih h
        exact ⟨y :: newer, older, g, by rw [hlog, List.cons_append], houter, hx⟩
    unfold openings at h
    split at h
    · rename_i g hy
      cases inner with
      | nil =>
        obtain ⟨rfl, rfl⟩ := List.cons.inj h
        exact ⟨[], rest, g, rfl, rfl, hy⟩
      | cons z inner => exact earlier (List.cons.inj h).2
    · cases hrest : openings rest with
      | nil =>
        rw [hrest] at h
        simp at h
      | cons z others =>
        rw [hrest] at h
        have hmore : openings rest = (z :: inner) ++ x :: outer :=
          hrest.trans (congrArg (z :: ·) h)
        exact earlier hmore
    · exact earlier h

/-- The window that was opened at the moment, if one was. -/
def Moment.opened? (x : Moment β) : Option (Guard β) :=
  match x.event with
  | .opened g => some g
  | _ => none

theorem Moment.event_of_opened? {x : Moment β} {g : Guard β} (h : x.opened? = some g) :
    x.event = .opened g := by
  unfold Moment.opened? at h
  split at h
  · cases h
    assumption
  · cases h

/-- The opening that is found a number of events ago. -/
theorem exists_opening {log : List (Moment β)} {n : Nat} {m : CellRef} {this : ObjectRef}
    (h : (log.drop n).head?.bind (fun x => x.opened?.map fun g => (g.trampoline, g.receiver)) =
      some (m, this)) :
    ∃ x older g, log.drop n = x :: older ∧ log = log.take n ++ x :: older ∧
      x.event = .opened g ∧ g.trampoline = m ∧ g.receiver = this := by
  obtain ⟨x, hx, hopened⟩ := Option.bind_eq_some_iff.mp h
  obtain ⟨g, hg, hm⟩ := Option.map_eq_some_iff.mp hopened
  obtain ⟨htramp, hthis⟩ := Prod.mk.inj hm
  obtain ⟨older, hdrop⟩ := List.head?_eq_some_iff.mp hx
  refine ⟨x, older, g, hdrop, ?_, Moment.event_of_opened? hg, htramp, hthis⟩
  rw [← hdrop, List.take_append_drop]

/-- The record ends inside the window opened at this moment, and none opened since through the
cell is in progress. -/
def Within (x : Moment β) (m : CellRef) (log : List (Moment β)) : Prop :=
  ∃ inner outer, openings log = inner ++ x :: outer ∧
    ∀ q ∈ inner, ∀ g, q.event = .opened g → g.isPassthrough = false → g.trampoline ≠ m

theorem Within.mem {x : Moment β} {m : CellRef} {log : List (Moment β)} (h : Within x m log) :
    x ∈ openings log := by
  obtain ⟨inner, outer, hopen, -⟩ := h
  rw [hopen]
  exact List.mem_append_right _ List.mem_cons_self

/-- As it does right after the opening. -/
theorem within_opened {x : Moment β} {g : Guard β} (hx : x.event = .opened g) (m : CellRef)
    (older : List (Moment β)) : Within x m (x :: older) :=
  ⟨[], openings older, by rw [openings, hx]; rfl, fun q hq => by cases hq⟩

/-- Nothing was lost, and cells hold what they held when the innermost window in progress was
opened. -/
structure Trail.Spans (t : Trail β) : Prop where
  grows : ∀ y ∈ t.log, y.world.Grows t.world
  held : ∀ p outer, openings t.log = p :: outer → ∀ m, p.world.cells.Live m →
    t.world.content m = p.world.content m

namespace Trail.Spans

variable {t u : Trail β}

/-- Where a window in progress was opened, all its cells are still there. -/
theorem live (h : t.Spans) {p : Moment β} {outer : List (Moment β)}
    (hp : openings t.log = p :: outer) {m : CellRef} (hm : p.world.cells.Live m) :
    t.world.cells.Live m := by
  have hsplit : openings t.log = [] ++ p :: outer := hp
  obtain ⟨newer, older, -, hlog, -, -⟩ := openings_split hsplit
  exact (h.grows p (hlog ▸ List.mem_append_right _ List.mem_cons_self)).cells m hm

/-- Whatever leads from one trail to another with the same windows in progress. -/
theorem step (h : t.Spans) (hgrows : t.world.Grows u.world)
    (hcontents : ∀ m, t.world.cells.Live m → u.world.content m = t.world.content m)
    (hlog : u.log = t.log ∨ ∃ e, u.log = ⟨e, u.world, u.thread⟩ :: t.log)
    (hopenings : openings u.log = openings t.log) : u.Spans where
  grows y hy := by
    rcases hlog with hlog | ⟨e, hlog⟩
    · rw [hlog] at hy
      exact (h.grows y hy).trans hgrows
    · rw [hlog] at hy
      rcases List.mem_cons.mp hy with rfl | hy
      · exact .refl _
      · exact (h.grows y hy).trans hgrows
  held p outer hp m hm := by
    rw [hopenings] at hp
    exact (hcontents m (h.live hp hm)).trans (h.held p outer hp m hm)

theorem extends_world {w : World β} {n : Nat} (h : t.Spans) (hw : World.Extends n t.world w) :
    ({ t with world := w } : Trail β).Spans :=
  h.step hw.grows (fun _ hm => hw.content hm) (Or.inl rfl) rfl

theorem outside (h : t.Spans) {e : Event β} (he : e.OutsideWindows) (th : Thread) :
    (({ t with thread := th } : Trail β).note e).Spans :=
  h.step (.refl _) (fun _ _ => rfl) (Or.inr ⟨e, rfl⟩) (openings_cons he _ _ _)

end Trail.Spans

/-- Every ordinary run closes the windows it opens, and keeps what they hold. -/
theorem kept_spans : Kept (β := β) (fun op => op.IsOrdinary = true) (fun _ _ _ _ => True)
    (fun t => t.world.Orderly ∧ t.Spans)
    (fun t u => Settles t u ∧ openings u.log = openings t.log) := by
  have k := kept_settles (β := β)
  exact
    { ordinary := k.ordinary
      refl := fun ht => ⟨k.refl ht.1, rfl⟩
      trans := fun hu hx h h' => ⟨k.trans hu.1 hx.1 h.1 h'.1, h'.2.trans h.2⟩
      note := by
        intro t e he ht
        have h := k.note he ht.1
        exact ⟨⟨h.inv, ht.2.outside he.outsideWindows t.thread⟩, h.rel,
          openings_cons he.outsideWindows _ _ _⟩
      define := by
        intro _ _ _ _ _ ha ht hd
        have h := k.define ha ht.1 hd
        exact ⟨⟨h.inv, ht.2.extends_world (World.extends_define hd)⟩, h.rel, rfl⟩
      allocate := by
        intro t v c ha ht
        have h := k.allocate (v := v) (c := c) ha ht.1
        exact ⟨⟨h.inv, ht.2.extends_world (World.extends_allocate 0 t.world v c)⟩, h.rel, rfl⟩
      setField := by
        intro _ _ _ _ _ ha ht hf
        have h := k.setField ha ht.1 hf
        exact ⟨⟨h.inv, ht.2.extends_world (World.extends_setField 0 hf)⟩, h.rel, rfl⟩
      frame := by
        intro t v m this args ht hm hd
        obtain ⟨hin, hout⟩ := k.frame args ht.1 hm hd
        refine ⟨⟨hin, ht.2.outside (e := .entered v m this args) trivial _⟩, fun u hu h => ?_⟩
        have h' := hout u hu.1 h.1
        exact ⟨⟨h'.inv, hu.2.outside (e := .left v m this) trivial _⟩, h'.rel, h.2⟩
      window := by
        intro t v m this args replaced handler ht hm he hr hw hh
        obtain ⟨hin, hout⟩ := k.window ht.1 hm he hr hw hh
        have hopen := t.grows_begin v (t.world.coreOf v) this m
        refine ⟨⟨hin, ⟨fun y hy => ?_, fun p outer hp m hm => ?_⟩⟩, fun u hu h => ?_⟩
        · rcases List.mem_cons.mp hy with rfl | hy
          · exact .refl _
          · exact (ht.2.grows y hy).trans hopen
        · obtain ⟨rfl, -⟩ := List.cons.inj hp
          rfl
        · have h' := hout u hu.1 h.1
          have hclosed : openings (u.finish (t.guardFor v (t.world.coreOf v) this m)).log =
              openings t.log := by
            show (openings u.log).tail = openings t.log
            rw [h.2]
            rfl
          have hclose := u.grows_finish (t.guardFor v (t.world.coreOf v) this m)
          refine ⟨⟨h'.inv, ⟨fun y hy => ?_, fun p outer hp m hm => ?_⟩⟩, h'.rel, hclosed⟩
          · rcases List.mem_cons.mp hy with rfl | hy
            · exact .refl _
            · exact (hu.2.grows y hy).trans hclose
          · -- Closing the window brings back what was held before it was opened.
            rw [hclosed] at hp
            exact (h'.rel.contents m (ht.2.live hp hm)).trans (ht.2.held p outer hp m hm)
      slot := fun _ _ => trivial
      direct := fun _ _ _ => trivial
      method := fun _ _ _ _ => trivial
      execute := fun _ _ => trivial
      replaced := fun _ _ _ _ => trivial }

/-! ### What trampolines hold -/

/-- At every event of a run of ordinary bodies. -/
theorem Reached.spans {host : Host β H} {s : State β (Logged β H)}
    (hb : ∀ b v this args, (host.body b v this args).Uses fun op => op.IsOrdinary = true)
    (hs : Reached host (fun op => op.IsOrdinary = true) s) :
    s.trail.Always fun t => t.Spans ∧
      t.Begun (fun _ _ _ _ => True) fun t => t.world.Orderly ∧ t.Spans := by
  have always := Reached.always kept_spans hb ?_ ?_ ?_ hs
  · exact always.imp fun h => ⟨h.1.2, h.2⟩
  · refine ⟨.empty, ⟨fun y hy => ?_, fun p outer hp => ?_⟩⟩
    · cases hy
    · cases hp
  · exact fun t rows ht =>
      ⟨ht.1.newRegistry rows, ht.2.extends_world (World.extends_newRegistry 0 t.world rows)⟩
  · exact fun t options core _ ht =>
      ⟨ht.1.newVmAround options core,
        ht.2.extends_world (World.extends_newVmAround t.world options core)⟩

section Openings

variable {May : World β → VmRef → CellRef → ObjectRef → Prop} {Inv : Trail β → Prop}
  {t : Trail β} {v : VmRef} {m n : CellRef} {this handler : ObjectRef} {x : Moment β}

/-- Opening a window leaves all cells but its trampoline as they are, and that as well if it
opens none. -/
theorem Trail.Opens.content (h : t.Opens v m this handler x)
    (hn : ∀ g, x.event = .opened g → g.isPassthrough = false → g.trampoline ≠ n) :
    x.world.content n = t.world.content n := by
  obtain rfl := h.moment
  have hguard := hn _ rfl
  rw [trampoline_guardFor] at hguard
  cases hpass : (t.guardFor v (t.world.coreOf v) this m).isPassthrough with
  | true =>
    exact congrArg (World.content · n) (World.openWindow_of_isPassthrough hpass)
  | false => exact World.content_openWindow_of_ne (hguard hpass).symm

/-- A window was opened right after the frame of its trampoline was admitted. -/
theorem Trail.Always.opening {Known : Trail β → Prop}
    (h : t.Always fun u => Known u ∧ u.Begun May Inv) {newer older : List (Moment β)}
    {g : Guard β} (hlog : t.log = newer ++ x :: older) (hx : x.event = .opened g) :
    ∃ (u : Trail β) (v : VmRef) (handler : ObjectRef) (args : List Value)
        (past : List (Moment β)),
      older = ⟨.entered v g.trampoline g.receiver args, u.world, u.thread⟩ :: past ∧
      t.log = (newer ++ [x]) ++
        ⟨.entered v g.trampoline g.receiver args, u.world, u.thread⟩ :: past ∧
      u.Opens v g.trampoline g.receiver handler x ∧
      May u.world v g.trampoline g.receiver ∧ Inv u := by
  obtain ⟨u, v, handler, holder, hopens, hmay, hu⟩ := (h newer x older hlog).2 x older g rfl hx
  obtain ⟨args, past, hentered⟩ := hopens.entered
  have hsplit := holder.symm.trans hentered
  refine ⟨u, v, handler, args, past, hsplit, ?_, hopens, hmay, hu⟩
  rw [hlog, hsplit, List.append_assoc]
  rfl

section Inside

variable (h : t.Always fun u => u.Spans ∧ u.Begun May Inv)
include h

/-- Inside a window cells hold what they held right after its opening, but for what windows
inside do.  Right before its opening the windows around it were in progress. -/
theorem Trail.Always.innermost {newer older outer : List (Moment β)} {z q : Moment β}
    (hlog : t.log = newer ++ z :: older) (hopen : openings (z :: older) = q :: outer) :
    ∃ (u : Trail β) (v : VmRef) (handler : ObjectRef) (g : Guard β)
        (later : List (Moment β)) (y : Moment β) (past : List (Moment β)),
      q.event = .opened g ∧ y.world = u.world ∧
      u.Opens v g.trampoline g.receiver handler q ∧
      t.log = later ++ y :: past ∧ openings (y :: past) = outer ∧
      (∀ x ∈ outer, x.world.Grows q.world) ∧
      ∀ m, q.world.cells.Live m → z.world.content m = q.world.content m := by
  have hsplit : openings (z :: older) = [] ++ q :: outer := hopen
  obtain ⟨between, rest, g, hq, houter, hevent⟩ := openings_split hsplit
  have hlogq : t.log = (newer ++ between) ++ q :: rest := by
    rw [hlog, hq, List.append_assoc]
  obtain ⟨u, v, handler, args, past, hrest, hpast, hopens, -, -⟩ := h.opening hlogq hevent
  have hgrows : ∀ x ∈ outer, x.world.Grows q.world := fun x hx => by
    obtain ⟨inner, others, hmem⟩ := List.append_of_mem hx
    obtain ⟨_, _, _, hlogx, -, -⟩ := openings_split (houter.trans hmem)
    refine (h _ q rest hlogq).1.grows x ?_
    rw [hlogx]
    exact List.mem_cons_of_mem _ (List.mem_append_right _ List.mem_cons_self)
  rw [hrest] at houter
  exact ⟨u, v, handler, g, (newer ++ between) ++ [q], _, past, hevent, rfl, hopens, hpast, houter,
    hgrows, (h newer z older hlog).1.held q outer hopen⟩

/-- Inside a window nothing is lost of what was there right before its opening. -/
theorem Trail.Always.grows_inside {u : Trail β} {later between : List (Moment β)} {z : Moment β}
    (hopens : u.Opens v n this handler x) (hz : t.log = later ++ z :: between)
    (hx : x ∈ openings (z :: between)) : u.world.Grows z.world := by
  obtain ⟨inner, outer, hopen⟩ := List.append_of_mem hx
  obtain ⟨_, _, _, hsplit, -, -⟩ := openings_split hopen
  have hopening : u.world.Grows x.world := by
    rw [hopens.moment]
    exact (World.shifts_openWindow u.world u.thread v (u.world.coreOf v) this n).grows
  refine hopening.trans ((h later z between hz).1.grows x ?_)
  rw [hsplit]
  exact List.mem_append_right _ List.mem_cons_self

/-- **A cell holds what it held at the opening of a window** for as long as the window is in
progress and none inside it, opened through the cell, is. -/
theorem Trail.Always.content_within {newer older : List (Moment β)} {z : Moment β}
    (hlog : t.log = newer ++ z :: older) (hin : Within x m (z :: older))
    (hm : x.world.cells.Live m) : z.world.content m = x.world.content m := by
  obtain ⟨inner, outer, hopen, hinner⟩ := hin
  -- From the innermost window outwards.
  induction inner generalizing newer older z with
  | nil => exact (h newer z older hlog).1.held x outer hopen m hm
  | cons q inner ih =>
    obtain ⟨u, v, handler, g, later, y, past, -, hy, hopens, hpast, houter, hgrows, hheld⟩ :=
      h.innermost hlog hopen
    have hlive : q.world.cells.Live m :=
      (hgrows x (List.mem_append_right _ List.mem_cons_self)).cells m hm
    calc z.world.content m = q.world.content m := hheld m hlive
      _ = y.world.content m := by rw [hy, hopens.content (hinner q List.mem_cons_self)]
      _ = x.world.content m := ih hpast houter fun q' hq' => hinner q' (List.mem_cons_of_mem _ hq')

/-- If it is no trampoline then, no window inside is opened through it. -/
theorem Trail.Always.within {newer older inner outer : List (Moment β)} {z : Moment β}
    (hlog : t.log = newer ++ z :: older) (hopen : openings (z :: older) = inner ++ x :: outer)
    (hm : x.world.cells.Live m) (hplain : (x.world.content m).isTrampoline = false) :
    Within x m (z :: older) := by
  refine ⟨inner, outer, hopen, ?_⟩
  induction inner generalizing newer older z with
  | nil => exact fun q hq => by cases hq
  | cons q inner ih =>
    obtain ⟨u, v, handler, g, later, y, past, hevent, hy, hopens, hpast, houter, -, -⟩ :=
      h.innermost hlog hopen
    have hinner := ih hpast houter
    intro q' hq' g' hevent' hpass htramp
    rcases List.mem_cons.mp hq' with rfl | hmem
    · obtain rfl : g = g' := Event.opened.inj (hevent.symm.trans hevent')
      have hbefore := h.content_within hpast ⟨inner, outer, houter, hinner⟩ hm
      have htrue := hopens.trampoline
      rw [htramp, ← hy, hbefore, hplain] at htrue
      cases htrue
    · exact hinner q' hmem g' hevent' hpass htramp

end Inside

end Openings

namespace World

variable {w : World β} {v : VmRef} {this : ObjectRef} {m : CellRef}

/-- The cell whose content a trampoline shows inside a window: over the whole class, what the
receiver's nearest row replaced in the trampoline's slot, if anything, and else the trampoline
itself. -/
def source (w : World β) (v : VmRef) (this : ObjectRef) (m : CellRef) : CellRef :=
  match w.isProxyInstance v this, (w.coreOf v).mode,
    w.interceptionOf (w.coreOf v).registry (w.classOf this) with
  | false, .classWide, some (_, r) =>
    ((w.tables.get r.unpatched)[(w.content m).slot]?).getD m
  | _, _, _ => m

/-- This is what it shows. -/
theorem content_openWindow_self (hm : w.cells.Live m) (th : Thread) :
    (w.openWindow th v (w.coreOf v) this m).2.1.content m = w.content (w.source v this m) := by
  have hopens := opens_openWindow w th v (w.coreOf v) this m
  generalize w.openWindow th v (w.coreOf v) this m = x at hopens ⊢
  unfold source
  cases hopens with
  | passthrough h =>
    rcases h with hp | hnone
    · rw [hp]
    · rw [hnone]
      cases w.isProxyInstance v this <;> cases (w.coreOf v).mode <;> rfl
  | perCall hp hr hmode =>
    rw [hp, hmode]
    rfl
  | @classWide i r hp hr hmode =>
    rw [hp, hmode, hr]
    cases hcell : (w.tables.get r.unpatched)[(w.content m).slot]? with
    | some o =>
      simp only [hcell, Option.getD_some]
      exact content_disarm_self hm hcell
    | none =>
      simp only [hcell, Option.getD_none]
      show (w.disarm r m).content m = w.content m
      simp only [World.disarm, hcell, content_install]

end World

theorem Trail.Opens.shown {t : Trail β} {v : VmRef} {m : CellRef} {this handler : ObjectRef}
    {x : Moment β} (h : t.Opens v m this handler x) (ht : t.world.Tabled) :
    x.world.cells.Live m ∧ x.world.content m = t.world.content (t.world.source v this m) := by
  have hlive : t.world.cells.Live m := (ht.copied h.trampoline).live ht
  rw [h.moment]
  exact ⟨((World.shifts_openWindow t.world t.thread v (t.world.coreOf v) this m).cells m).mpr hlive,
    World.content_openWindow_self hlive t.thread⟩

end Interception
