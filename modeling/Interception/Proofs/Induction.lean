/-
Induction over a run.

A run is a tree: bodies call cells, cells run bodies, windows open and close around
handlers, and every branch can end in a value, an error or a panic.  What every run
keeps is nevertheless settled by a handful of steps, since only these change the
world, the thread or the record: defining a class, allocating, writing a field, and
going into and out of a frame or a window.

`Kept` lists them for an invariant of trails and a relation between trails, and
`Kept.execute` and `Kept.run` conclude it for every run.  Frames and windows come in
pairs: what has to be shown is that a window closes well over everything the relation
lets happen inside it.

Not every body is allowed everything, and not every cell can be run on every object
then.  `allowed` is what bodies may ask for, and `May` what cells they reach in this
way; a property of all ordinary runs takes `May` to be always true.
-/
import Interception.Proofs.Trail

namespace Interception

variable {β H α : Type}

/-- What every operation keeps of the trail, and every note of one, a program keeps. -/
theorem Program.lift_induct {host : Host β H} {exec : Executor β (Logged β H)}
    {allowed : Op β → Prop} {P : Trail β → Prop}
    (hop : ∀ {op : Op β} {s : State β (Logged β H)}, allowed op → P s.trail →
      P (op.run host.logged exec s).2.trail)
    (hnote : ∀ {t op}, P t → P (t.note (.performed op))) (p : Program β H α)
    (hp : p.Uses allowed) (s : State β (Logged β H)) (hs : P s.trail) :
    P (p.lift.run host.logged exec s).2.trail := by
  induction p generalizing s with
  | pure a => exact hs
  | fail e => exact hs
  | panic text => exact hs
  | host update next ih =>
    exact ih s.world s.host.1 (hp s.world s.host.1)
      { s with host := (update s.world s.host.1, s.host.2) } hs
  | call op next ih =>
    have h := hop hp.1 hs
    simp only [Program.lift, Program.run]
    generalize op.run host.logged exec s = x at h ⊢
    obtain ⟨r, u⟩ := x
    cases r with
    | value a => exact ih (.ok a) (hp.2 _) (u.notify host.logged (.performed op)) (hnote h)
    | error e => exact ih (.error e) (hp.2 _) (u.notify host.logged (.performed op)) (hnote h)
    | panic text => exact h
    | endless => exact h

/-- Events that change neither the world nor the thread. -/
def Event.IsQuiet : Event β → Prop
  | .refused .. | .performed .. => True
  | _ => False

/-- One trail is related to another, which satisfies the invariant. -/
structure Leads (Inv : Trail β → Prop) (R : Trail β → Trail β → Prop) (t u : Trail β) :
    Prop where
  inv : Inv u
  rel : R t u

/-- The record ends with a frame of this cell being admitted just now. -/
def Trail.Entered (t : Trail β) (v : VmRef) (m : CellRef) (this : ObjectRef)
    (args : List Value) : Prop :=
  ∃ older, t.log = ⟨.entered v m this args, t.world, t.thread⟩ :: older

/-- An invariant and a relation that every step of a run keeps. -/
structure Kept (allowed : Op β → Prop) (May : World β → VmRef → CellRef → ObjectRef → Prop)
    (Inv : Trail β → Prop) (R : Trail β → Trail β → Prop) : Prop where
  ordinary : ∀ {op}, allowed op → op.IsOrdinary = true
  refl : ∀ {t}, Inv t → R t t
  trans : ∀ {t u x}, Inv u → Inv x → R t u → R u x → R t x
  note : ∀ {t e}, Event.IsQuiet e → Inv t → Leads Inv R t (t.note e)
  define : ∀ {t v d c w}, allowed (.define v d) → Inv t → t.world.define v d = .ok (c, w) →
    Leads Inv R t { t with world := w }
  allocate : ∀ {t v c}, allowed (.allocate v c) → Inv t →
    Leads Inv R t { t with world := (t.world.allocate v c).2 }
  setField : ∀ {t o i x w}, allowed (.setField o i x) → Inv t →
    t.world.setField o i x = .ok w → Leads Inv R t { t with world := w }
  frame : ∀ {t v m this} args, Inv t → May t.world v m this →
    t.thread.depth < t.world.maxDepth v →
    Inv (t.enter v m this args) ∧
      ∀ u, Inv u → R (t.enter v m this args) u → Leads Inv R t (u.leave v m this)
  /-- A window on a trampoline is opened where its frame was just admitted, it is not in
  a window of its own already, and there is a handler. -/
  window : ∀ {t v m this args replaced handler}, Inv t → May t.world v m this →
    t.Entered v m this args → (t.world.content m).replaced? = some replaced →
    ¬ ((t.world.coreOf v).mode = .perCall ∧ t.thread.inWindow m this = true) →
    t.world.handlerOf v (t.world.coreOf v) this = some handler →
    Inv (t.begin v (t.world.coreOf v) this m) ∧
      ∀ u, Inv u → R (t.begin v (t.world.coreOf v) this m) u →
        Leads Inv R t (u.finish (t.guardFor v (t.world.coreOf v) this m))
  slot : ∀ {t v this k m}, Inv t →
    t.world.methodAt (t.world.classOf this) k = some m → May t.world v m this
  direct : ∀ {t v this name args m}, allowed (.callDirect v this name args) → Inv t →
    t.world.directMethod (t.world.classOf this) name = some m → May t.world v m this
  method : ∀ {t v caller m this args}, allowed (.callMethod v caller m this args) → Inv t →
    t.world.checkReceiver this (t.world.content m) = .ok () →
    t.world.checkAccess v caller (t.world.content m) = .ok () → May t.world v m this
  execute : ∀ {t v m this args}, allowed (.execute v m this args) → Inv t →
    May t.world v m this
  /-- A trampoline gives way to what it replaced in a window of its own, or where there is no
  handler. -/
  replaced : ∀ {t v m this m'}, Inv t → May t.world v m this →
    (t.world.content m).replaced? = some m' →
    ((t.world.coreOf v).mode = .perCall ∧ t.thread.inWindow m this = true) ∨
      t.world.handlerOf v (t.world.coreOf v) this = none → May t.world v m' this

namespace Kept

variable {allowed : Op β → Prop} {May : World β → VmRef → CellRef → ObjectRef → Prop}
  {Inv : Trail β → Prop} {R : Trail β → Trail β → Prop} {host : Host β H}
  {exec : Executor β (Logged β H)}

theorem step (k : Kept allowed May Inv R) {t u x : Trail β} (h : Leads Inv R t u)
    (h' : Leads Inv R u x) : Leads Inv R t x :=
  ⟨h'.inv, k.trans h.inv h'.inv h.rel h'.rel⟩

/-- Running a cell leads from any good state to a good one. -/
def Runs (_ : Kept allowed May Inv R) (exec : Executor β (Logged β H)) : Prop :=
  ∀ v m this args s, Inv s.trail → May s.world v m this →
    Leads Inv R s.trail (exec v m this args s).2.trail

variable (k : Kept allowed May Inv R)
include k

theorem same {t : Trail β} (h : Inv t) : Leads Inv R t t := ⟨h, k.refl h⟩

theorem invokeSlot (hx : k.Runs exec) (v : VmRef) (this : ObjectRef) (slot : Nat)
    (args : List Value) (s : State β (Logged β H)) (hs : Inv s.trail) :
    Leads Inv R s.trail (invokeSlot exec v this slot args s).2.trail := by
  unfold Interception.invokeSlot
  simp only
  split
  · rename_i m hm
    exact hx v m this args s hs (k.slot hs hm)
  · exact k.same hs

theorem invokeVirtual (hx : k.Runs exec) (v : VmRef) (this : ObjectRef) (name : String)
    (args : List Value) (s : State β (Logged β H)) (hs : Inv s.trail) :
    Leads Inv R s.trail (invokeVirtual exec v this name args s).2.trail := by
  unfold Interception.invokeVirtual
  simp only
  split
  · exact k.invokeSlot hx v this _ args s hs
  · exact k.same hs

theorem invokeDirect (hx : k.Runs exec) {v : VmRef} {this : ObjectRef} {name : String}
    {args : List Value} (ha : allowed (.callDirect v this name args))
    (s : State β (Logged β H)) (hs : Inv s.trail) :
    Leads Inv R s.trail (invokeDirect exec v this name args s).2.trail := by
  unfold Interception.invokeDirect
  simp only
  split
  · rename_i m hm
    exact hx v m this args s hs (k.direct ha hs hm)
  · exact k.same hs

theorem invokeMethod (hx : k.Runs exec) {v : VmRef} {caller : Option ClassRef} {m : CellRef}
    {this : ObjectRef} {args : List Value} (ha : allowed (.callMethod v caller m this args))
    (s : State β (Logged β H)) (hs : Inv s.trail) :
    Leads Inv R s.trail (invokeMethod exec v caller m this args s).2.trail := by
  unfold Interception.invokeMethod
  simp only
  split
  · exact k.same hs
  · rename_i hrec
    split
    · exact k.same hs
    · rename_i hacc
      exact hx v m this args s hs (k.method ha hs hrec hacc)

theorem invokeHandler (hx : k.Runs exec) {v : VmRef} {handler : ObjectRef} {m replaced : CellRef}
    {this : ObjectRef} {args : List Value} {s : State β (Logged β H)} (hs : Inv s.trail)
    (hmay : May s.world v m this) (hent : s.trail.Entered v m this args)
    (hr : (s.world.content m).replaced? = some replaced)
    (hw : ¬ ((s.world.coreOf v).mode = .perCall ∧ s.thread.inWindow m this = true))
    (hh : s.world.handlerOf v (s.world.coreOf v) this = some handler) :
    Leads Inv R s.trail
      (invokeHandler host.logged exec v (s.world.coreOf v) handler m this args s).2.trail := by
  obtain ⟨hin, hout⟩ := k.window hs hmay hent hr hw hh
  have hcall := k.invokeVirtual hx v handler handlerMethod (.object this :: .method m :: args)
    (s.begin host.logged v (s.world.coreOf v) this m) hin
  have hclose := hout _ hcall.inv hcall.rel
  rw [invokeHandler_eq]
  simp only [trail_finish]
  exact hclose

theorem invokeTrampoline (hx : k.Runs exec) {v : VmRef} {m replaced : CellRef}
    {this : ObjectRef} {args : List Value} {s : State β (Logged β H)} (hs : Inv s.trail)
    (hmay : May s.world v m this) (hent : s.trail.Entered v m this args)
    (hr : (s.world.content m).replaced? = some replaced) :
    Leads Inv R s.trail
      (invokeTrampoline host.logged exec v (s.world.coreOf v) m this args s).2.trail := by
  by_cases hw : (s.world.coreOf v).mode = .perCall ∧ s.thread.inWindow m this = true
  · rw [invokeTrampoline_inWindow _ _ hr hw]
    exact hx v replaced this args s hs (k.replaced hs hmay hr (Or.inl hw))
  · cases hh : s.world.handlerOf v (s.world.coreOf v) this with
    | none =>
      rw [invokeTrampoline_unbound _ _ hr hh]
      exact hx v replaced this args s hs (k.replaced hs hmay hr (Or.inr hh))
    | some handler =>
      rw [invokeTrampoline_handled _ _ hr hw hh]
      exact k.invokeHandler hx hs hmay hent hr hw hh

variable (host) in
theorem op (hx : k.Runs exec) {o : Op β} (ha : allowed o) (s : State β (Logged β H))
    (hs : Inv s.trail) : Leads Inv R s.trail (o.run host.logged exec s).2.trail := by
  have hord := k.ordinary ha
  cases o with
  | callVirtual v this name args => exact k.invokeVirtual hx v this name args s hs
  | callSlot v this slot args => exact k.invokeSlot hx v this slot args s hs
  | callDirect v this name args => exact k.invokeDirect hx ha s hs
  | callMethod v caller m this args => exact k.invokeMethod hx ha s hs
  | execute v m this args => exact hx v m this args s hs (k.execute ha hs)
  | allocate v c => exact k.allocate ha hs
  | define v d =>
    simp only [Op.run]
    split
    · rename_i hd
      exact k.define ha hs hd
    · exact k.same hs
  | setField o i x =>
    simp only [Op.run]
    split
    · rename_i hf
      exact k.setField ha hs hf
    · exact k.same hs
  | _ => cases hord

variable (host) in
/-- Every run of a program that asks for allowed things only keeps what is kept. -/
theorem run (hx : k.Runs exec) (p : Program β H α) (ha : p.Uses allowed)
    (s : State β (Logged β H)) (hs : Inv s.trail) :
    Leads Inv R s.trail (p.lift.run host.logged exec s).2.trail :=
  p.lift_induct (P := Leads Inv R s.trail) (fun hop h => k.step h (k.op host hx hop _ h.inv))
    (fun h => k.step h (k.note trivial h.inv)) ha s (k.same hs)

theorem runCell (hx : k.Runs exec)
    (hb : ∀ b v this args, (host.body b v this args).Uses allowed) {v : VmRef} {m : CellRef}
    {this : ObjectRef} {args : List Value} {s : State β (Logged β H)} (hs : Inv s.trail)
    (hmay : May s.world v m this) (hent : s.trail.Entered v m this args) :
    Leads Inv R s.trail (runCell host.logged exec v m this args s).2.trail := by
  unfold Interception.runCell
  simp only
  split
  · exact k.run host hx _ (hb _ v this args) s hs
  · exact k.same hs
  · rename_i r hcode
    exact k.invokeTrampoline hx hs hmay hent (Descriptor.replaced?_eq_some_iff.mpr hcode)

/-- Every run of a cell keeps what is kept, if bodies ask for allowed things only. -/
theorem runs_execute (hb : ∀ b v this args, (host.body b v this args).Uses allowed) (n : Nat) :
    k.Runs (Interception.execute host.logged n) := by
  induction n with
  | zero =>
    intro v m this args s hs _
    exact k.note trivial hs
  | succ n ih =>
    intro v m this args s hs hmay
    by_cases hd : s.thread.depth < s.world.maxDepth v
    · rw [execute_admitted host.logged hd]
      obtain ⟨hin, hout⟩ := k.frame args hs hmay hd
      have hcell := k.runCell ih hb (s := s.enter host.logged v m this args) hin hmay ⟨_, rfl⟩
      exact hout _ hcell.inv hcell.rel
    · rw [execute_refused host.logged (by omega)]
      exact k.note trivial hs

end Kept

/-! ### Putting together -/

namespace Kept

variable {allowed allowed' : Op β → Prop}
  {May May' : World β → VmRef → CellRef → ObjectRef → Prop}
  {Inv Inv' : Trail β → Prop} {R R' : Trail β → Trail β → Prop}

/-- Bodies may be allowed less. -/
theorem restrict (k : Kept allowed May Inv R) (h : ∀ {op}, allowed' op → allowed op) :
    Kept allowed' May Inv R :=
  { k with
    ordinary := fun ha => k.ordinary (h ha)
    define := fun ha => k.define (h ha)
    allocate := fun ha => k.allocate (h ha)
    setField := fun ha => k.setField (h ha)
    direct := fun ha => k.direct (h ha)
    method := fun ha => k.method (h ha)
    execute := fun ha => k.execute (h ha) }

/-- What is kept each for itself is kept together. -/
theorem both (k : Kept allowed May Inv R) (k' : Kept allowed May' Inv' R') :
    Kept allowed (fun w v m this => May w v m this ∧ May' w v m this)
      (fun t => Inv t ∧ Inv' t) (fun t u => R t u ∧ R' t u) := by
  have pair : ∀ {t u : Trail β}, Leads Inv R t u → Leads Inv' R' t u →
      Leads (fun t => Inv t ∧ Inv' t) (fun t u => R t u ∧ R' t u) t u :=
    fun h h' => ⟨⟨h.inv, h'.inv⟩, h.rel, h'.rel⟩
  exact
    { ordinary := k.ordinary
      refl := fun ht => ⟨k.refl ht.1, k'.refl ht.2⟩
      trans := fun hu hx h h' => ⟨k.trans hu.1 hx.1 h.1 h'.1, k'.trans hu.2 hx.2 h.2 h'.2⟩
      note := fun he ht => pair (k.note he ht.1) (k'.note he ht.2)
      define := fun ha ht hd => pair (k.define ha ht.1 hd) (k'.define ha ht.2 hd)
      allocate := fun ha ht => pair (k.allocate ha ht.1) (k'.allocate ha ht.2)
      setField := fun ha ht hf => pair (k.setField ha ht.1 hf) (k'.setField ha ht.2 hf)
      frame := by
        intro t v m this args ht hm hd
        obtain ⟨hin, hout⟩ := k.frame args ht.1 hm.1 hd
        obtain ⟨hin', hout'⟩ := k'.frame args ht.2 hm.2 hd
        exact ⟨⟨hin, hin'⟩, fun u hu h => pair (hout u hu.1 h.1) (hout' u hu.2 h.2)⟩
      window := by
        intro t v m this args replaced handler ht hm he hr hw hh
        obtain ⟨hin, hout⟩ := k.window ht.1 hm.1 he hr hw hh
        obtain ⟨hin', hout'⟩ := k'.window ht.2 hm.2 he hr hw hh
        exact ⟨⟨hin, hin'⟩, fun u hu h => pair (hout u hu.1 h.1) (hout' u hu.2 h.2)⟩
      slot := fun ht hm => ⟨k.slot ht.1 hm, k'.slot ht.2 hm⟩
      direct := fun ha ht hm => ⟨k.direct ha ht.1 hm, k'.direct ha ht.2 hm⟩
      method := fun ha ht hrec hacc => ⟨k.method ha ht.1 hrec hacc, k'.method ha ht.2 hrec hacc⟩
      execute := fun ha ht => ⟨k.execute ha ht.1, k'.execute ha ht.2⟩
      replaced := fun ht hm hr hway =>
        ⟨k.replaced ht.1 hm.1 hr hway, k'.replaced ht.2 hm.2 hr hway⟩ }

/-- The same, said differently. -/
theorem reword (k : Kept allowed May Inv R)
    (hmay : ∀ {w v m this}, May w v m this ↔ May' w v m this) (hinv : ∀ {t}, Inv t ↔ Inv' t)
    (hrel : ∀ {t u}, R t u ↔ R' t u) : Kept allowed May' Inv' R' := by
  obtain rfl : May = May' := by
    funext w v m this
    exact propext hmay
  obtain rfl : Inv = Inv' := by
    funext t
    exact propext hinv
  obtain rfl : R = R' := by
    funext t u
    exact propext hrel
  exact k

end Kept

/-! ### Every moment -/

/-- A moment of a run: the state it is in now, or what some event saw. -/
def Trail.At (t : Trail β) (w : World β) (th : Thread) : Prop :=
  (t.world = w ∧ t.thread = th) ∨ ∃ x ∈ t.log, x.world = w ∧ x.thread = th

/-- The present is a moment of the run. -/
theorem State.at_present (s : State β (Logged β H)) : s.trail.At s.world s.thread :=
  Or.inl ⟨rfl, rfl⟩

/-- A piece of a run from one trail to another passes no other moments of interest. -/
theorem Trail.at_of_log {t u : Trail β} {w : World β} {th : Thread} (hu : u.At w th)
    (h : u.log = t.log ∨ ∃ e, u.log = ⟨e, u.world, u.thread⟩ :: t.log) :
    (u.world = w ∧ u.thread = th) ∨ t.At w th := by
  rcases hu with hnow | ⟨x, hx, hxw⟩
  · exact Or.inl hnow
  · rcases h with hlog | ⟨e, hlog⟩
    · rw [hlog] at hx
      exact Or.inr (Or.inr ⟨x, hx, hxw⟩)
    · rw [hlog] at hx
      rcases List.mem_cons.mp hx with rfl | hx
      · exact Or.inl hxw
      · exact Or.inr (Or.inr ⟨x, hx, hxw⟩)

/-- What each step that leads to a good trail adds to, noted or not, is kept beside the rest. -/
theorem Kept.alongside {allowed : Op β → Prop}
    {May : World β → VmRef → CellRef → ObjectRef → Prop} {Inv J : Trail β → Prop}
    {R : Trail β → Trail β → Prop} (k : Kept allowed May Inv R)
    (step : ∀ {t u : Trail β}, J t → Inv u →
      (u.log = t.log ∨ ∃ e, u.log = ⟨e, u.world, u.thread⟩ :: t.log) → J u) :
    Kept allowed May (fun t => Inv t ∧ J t) R :=
  { ordinary := k.ordinary
    refl := fun ht => k.refl ht.1
    trans := fun hu hx h h' => k.trans hu.1 hx.1 h h'
    note := by
      intro t e he ht
      have h := k.note he ht.1
      exact ⟨⟨h.inv, step ht.2 h.inv (Or.inr ⟨e, rfl⟩)⟩, h.rel⟩
    define := by
      intro _ _ _ _ _ ha ht hd
      have h := k.define ha ht.1 hd
      exact ⟨⟨h.inv, step ht.2 h.inv (Or.inl rfl)⟩, h.rel⟩
    allocate := by
      intro _ _ _ ha ht
      have h := k.allocate ha ht.1
      exact ⟨⟨h.inv, step ht.2 h.inv (Or.inl rfl)⟩, h.rel⟩
    setField := by
      intro _ _ _ _ _ ha ht hf
      have h := k.setField ha ht.1 hf
      exact ⟨⟨h.inv, step ht.2 h.inv (Or.inl rfl)⟩, h.rel⟩
    frame := by
      intro t v m this args ht hm hd
      obtain ⟨hin, hout⟩ := k.frame args ht.1 hm hd
      refine ⟨⟨hin, step ht.2 hin (Or.inr ⟨_, rfl⟩)⟩, fun u hu h => ?_⟩
      have h' := hout u hu.1 h
      exact ⟨⟨h'.inv, step hu.2 h'.inv (Or.inr ⟨_, rfl⟩)⟩, h'.rel⟩
    window := by
      intro t v m this args replaced handler ht hm he hr hw hh
      obtain ⟨hin, hout⟩ := k.window ht.1 hm he hr hw hh
      refine ⟨⟨hin, step ht.2 hin (Or.inr ⟨_, rfl⟩)⟩, fun u hu h => ?_⟩
      have h' := hout u hu.1 h
      exact ⟨⟨h'.inv, step hu.2 h'.inv (Or.inr ⟨_, rfl⟩)⟩, h'.rel⟩
    slot := fun ht hm => k.slot ht.1 hm
    direct := fun ha ht hm => k.direct ha ht.1 hm
    method := fun ha ht hrec hacc => k.method ha ht.1 hrec hacc
    execute := fun ha ht => k.execute ha ht.1
    replaced := fun ht hm hr hway => k.replaced ht.1 hm hr hway }

/-- What is kept of the world and the thread held at every moment so far. -/
theorem Kept.everywhere {allowed : Op β → Prop}
    {May : World β → VmRef → CellRef → ObjectRef → Prop} {P : World β → Thread → Prop}
    {R : Trail β → Trail β → Prop} (k : Kept allowed May (fun t => P t.world t.thread) R) :
    Kept allowed May (fun t => ∀ w th, t.At w th → P w th) R := by
  refine (k.alongside (J := fun t => ∀ w th, t.At w th → P w th) ?_).reword Iff.rfl
    ⟨And.right, fun h => ⟨h _ _ (Or.inl ⟨rfl, rfl⟩), h⟩⟩ Iff.rfl
  intro t u ht hu hlog w th hat
  rcases Trail.at_of_log hat hlog with ⟨rfl, rfl⟩ | hat
  · exact hu
  · exact ht w th hat

/-! ### From every moment to every later one -/

/-- The worlds seen so far, newest first. -/
def Trail.worlds (t : Trail β) : List (World β) := t.world :: t.log.map Moment.world

/-- The worlds of a trail are those of its moments. -/
theorem Trail.at_of_mem_worlds {t : Trail β} {w : World β} (hw : w ∈ t.worlds) :
    ∃ th, t.At w th := by
  rcases List.mem_cons.mp hw with rfl | hw
  · exact ⟨t.thread, Or.inl ⟨rfl, rfl⟩⟩
  · obtain ⟨x, hx, rfl⟩ := List.mem_map.mp hw
    exact ⟨x.thread, Or.inr ⟨x, hx, rfl, rfl⟩⟩

theorem Trail.At.mem_worlds {t : Trail β} {w : World β} {th : Thread} (h : t.At w th) :
    w ∈ t.worlds := by
  rcases h with ⟨rfl, -⟩ | ⟨x, hx, rfl, -⟩
  · exact List.mem_cons_self
  · exact List.mem_cons_of_mem _ (List.mem_map_of_mem hx)

/-- Each world of a trail is good, and each is related to all the later ones. -/
structure Trail.Ordered (P : World β → Prop) (S : World β → World β → Prop) (t : Trail β) :
    Prop where
  each : ∀ w ∈ t.worlds, P w
  ordered : t.worlds.Pairwise fun later earlier => S earlier later

section Ordered

variable {allowed : Op β → Prop} {May : World β → VmRef → CellRef → ObjectRef → Prop}
  {P : World β → Prop} {S : World β → World β → Prop}

theorem Trail.Ordered.now {t : Trail β} (h : t.Ordered P S) : P t.world :=
  h.each _ List.mem_cons_self

/-- One step more, noted or not, with all worlds before it related to what it leads to. -/
theorem Trail.Ordered.extend {t u : Trail β} (h : t.Ordered P S) (hrefl : S u.world u.world)
    (hlater : ∀ w ∈ t.log.map Moment.world, S w u.world) (hu : P u.world)
    (hlog : u.log = t.log ∨ ∃ e, u.log = ⟨e, u.world, u.thread⟩ :: t.log) : u.Ordered P S := by
  obtain ⟨-, hpast⟩ := List.pairwise_cons.mp h.ordered
  have hold : ∀ w ∈ u.worlds, w = u.world ∨ w ∈ t.log.map Moment.world := fun w hw => by
    rcases List.mem_cons.mp hw with rfl | hw
    · exact Or.inl rfl
    · rcases hlog with hlog | ⟨e, hlog⟩
      · rw [hlog] at hw
        exact Or.inr hw
      · rw [hlog, List.map_cons] at hw
        exact List.mem_cons.mp hw
  refine ⟨fun w hw => ?_, List.pairwise_cons.mpr ⟨fun w hw => ?_, ?_⟩⟩
  · rcases hold w hw with rfl | hw
    · exact hu
    · exact h.each w (List.mem_cons_of_mem _ hw)
  · rcases hold w (List.mem_cons_of_mem _ hw) with rfl | hw
    · exact hrefl
    · exact hlater w hw
  · rcases hlog with hlog | ⟨e, hlog⟩
    · rw [hlog]
      exact hpast
    · rw [hlog, List.map_cons]
      exact List.pairwise_cons.mpr ⟨hlater, hpast⟩

theorem Trail.Ordered.step {t u : Trail β} (h : t.Ordered P S) (hrefl : S u.world u.world)
    (hlater : ∀ {w}, S w t.world → S w u.world) (hu : P u.world)
    (hlog : u.log = t.log ∨ ∃ e, u.log = ⟨e, u.world, u.thread⟩ :: t.log) : u.Ordered P S :=
  h.extend hrefl (fun w hw => hlater ((List.pairwise_cons.mp h.ordered).1 w hw)) hu hlog

/-- What is kept of the world holds of all worlds on the way, and of each with respect to all
the later ones, if going into a window and out of it keep it too. -/
theorem Kept.ordered (k : Kept allowed May (fun t => P t.world) (fun t u => S t.world u.world))
    (hwindow : ∀ {t : Trail β} {v m this replaced handler}, P t.world → May t.world v m this →
      (t.world.content m).replaced? = some replaced →
      t.world.handlerOf v (t.world.coreOf v) this = some handler →
      S t.world (t.begin v (t.world.coreOf v) this m).world ∧
      ∀ u : Trail β, P u.world → S (t.begin v (t.world.coreOf v) this m).world u.world →
        S u.world (u.finish (t.guardFor v (t.world.coreOf v) this m)).world) :
    Kept allowed May (fun t => t.Ordered P S) (fun t u => S t.world u.world) := by
  have hrefl : ∀ {w : World β}, P w → S w w := fun {w} hw => k.refl (t := ⟨w, {}, []⟩) hw
  have htrans : ∀ {w x y : World β}, P x → P y → S x y → S w x → S w y :=
    fun {w x y} hx hy h h' =>
      k.trans (t := ⟨w, {}, []⟩) (u := ⟨x, {}, []⟩) (x := ⟨y, {}, []⟩) hx hy h' h
  have step : ∀ {t u : Trail β}, t.Ordered P S → P u.world → S t.world u.world →
      (u.log = t.log ∨ ∃ e, u.log = ⟨e, u.world, u.thread⟩ :: t.log) → u.Ordered P S :=
    fun ht hu h hlog => ht.step (hrefl hu) (htrans ht.now hu h) hu hlog
  exact
    { ordinary := k.ordinary
      refl := fun ht => k.refl ht.now
      trans := fun hu hx h h' => k.trans hu.now hx.now h h'
      note := by
        intro t e he ht
        have h := k.note he ht.now
        exact ⟨step ht h.inv h.rel (Or.inr ⟨e, rfl⟩), h.rel⟩
      define := by
        intro _ _ _ _ _ ha ht hd
        have h := k.define ha ht.now hd
        exact ⟨step ht h.inv h.rel (Or.inl rfl), h.rel⟩
      allocate := by
        intro _ _ _ ha ht
        have h := k.allocate ha ht.now
        exact ⟨step ht h.inv h.rel (Or.inl rfl), h.rel⟩
      setField := by
        intro _ _ _ _ _ ha ht hf
        have h := k.setField ha ht.now hf
        exact ⟨step ht h.inv h.rel (Or.inl rfl), h.rel⟩
      frame := by
        intro t v m this args ht hm hd
        obtain ⟨hin, hout⟩ := k.frame args ht.now hm hd
        have hsame : S t.world (t.enter v m this args).world := hrefl ht.now
        refine ⟨step ht hin hsame (Or.inr ⟨_, rfl⟩), fun u hu h => ?_⟩
        have h' := hout u hu.now h
        have hback : S u.world (u.leave v m this).world := hrefl hu.now
        exact ⟨step hu h'.inv hback (Or.inr ⟨_, rfl⟩), h'.rel⟩
      window := by
        intro t v m this args replaced handler ht hm he hr hw hh
        obtain ⟨hin, hout⟩ := k.window ht.now hm he hr hw hh
        obtain ⟨hopen, hclose⟩ := hwindow ht.now hm hr hh
        refine ⟨step ht hin hopen (Or.inr ⟨_, rfl⟩), fun u hu h => ?_⟩
        have h' := hout u hu.now h
        exact ⟨step hu h'.inv (hclose u hu.now h) (Or.inr ⟨_, rfl⟩), h'.rel⟩
      slot := fun ht hm => k.slot ht.now hm
      direct := fun ha ht hm => k.direct ha ht.now hm
      method := fun ha ht hrec hacc => k.method ha ht.now hrec hacc
      execute := fun ha ht => k.execute ha ht.now
      replaced := fun ht hm hr hway => k.replaced ht.now hm hr hway }

/-- What an invariant says of the present and of the worlds before it holds of all worlds on
the way. -/
theorem Kept.remembers {Inv : Trail β → Prop} {R : Trail β → Trail β → Prop}
    (k : Kept allowed May Inv R)
    (h : ∀ {t : Trail β}, Inv t → P t.world ∧ ∀ w ∈ t.worlds, S w t.world) :
    Kept allowed May (fun t => Inv t ∧ t.Ordered P S) R := by
  refine k.alongside fun {t u} ht hu hlog => ?_
  obtain ⟨hnow, hlater⟩ := h hu
  refine ht.extend (hlater _ List.mem_cons_self) (fun w hw => hlater w ?_) hnow hlog
  refine List.mem_cons_of_mem _ ?_
  rcases hlog with hlog | ⟨e, hlog⟩
  · rw [hlog]
    exact hw
  · rw [hlog]
    exact List.mem_cons_of_mem _ hw

end Ordered

/-! ### Runs from the beginning -/

/-- The states a machine's host can be in between two top-level operations: registries
and machines are set up at will, machines around any registry there is, and programs
that ask for allowed things only are run one after the other on one thread. -/
inductive Reached (host : Host β H) (allowed : Op β → Prop) : State β (Logged β H) → Prop
  | start (h : H) : Reached host allowed ⟨{}, {}, (h, [])⟩
  | registry {s : State β (Logged β H)} (hs : Reached host allowed s) (rows : List Row) :
      Reached host allowed { s with world := (s.world.newRegistry rows).2 }
  | machine {s : State β (Logged β H)} (hs : Reached host allowed s) (options : VmOptions)
      (core : Core) (hcore : s.world.registries.Live core.registry) :
      Reached host allowed { s with world := (s.world.newVmAround options core).2 }
  | run {s : State β (Logged β H)} (hs : Reached host allowed s) {α : Type}
      (p : Program β H α) (hp : p.Uses allowed) :
      Reached host allowed (p.lift.start host.logged s).2

/-- One machine around a registry of its own. -/
theorem Reached.newVm {host : Host β H} {allowed : Op β → Prop} (h : H) (options : VmOptions) :
    Reached host allowed ⟨(World.newVm {} options).2, {}, (h, [])⟩ :=
  ((Reached.start h).registry options.rows).machine options ⟨⟨0⟩, options.mode⟩
    (Store.live_next_add _ _)

/-- What holds at the beginning and is kept by setting up and by runs holds of every
state reached. -/
theorem Reached.inv {host : Host β H} {allowed : Op β → Prop}
    {May : World β → VmRef → CellRef → ObjectRef → Prop} {Inv : Trail β → Prop}
    {R : Trail β → Trail β → Prop} (k : Kept allowed May Inv R)
    (hb : ∀ b v this args, (host.body b v this args).Uses allowed)
    (hstart : Inv ⟨{}, {}, []⟩)
    (hregistry : ∀ t rows, Inv t → Inv { t with world := (t.world.newRegistry rows).2 })
    (hmachine : ∀ t options core, t.world.registries.Live core.registry → Inv t →
      Inv { t with world := (t.world.newVmAround options core).2 })
    {s : State β (Logged β H)} (hs : Reached host allowed s) : Inv s.trail := by
  induction hs with
  | start h => exact hstart
  | @registry s _ rows ih => exact hregistry s.trail rows ih
  | @machine s _ options core hcore ih => exact hmachine s.trail options core hcore ih
  | @run s _ _ p hp ih =>
    have h := k.run host (k.runs_execute hb s.room) p hp s ih
    exact h.inv

/-- The same for what is said of the world and the thread, at every moment on the way. -/
theorem Reached.everywhere {host : Host β H} {allowed : Op β → Prop}
    {May : World β → VmRef → CellRef → ObjectRef → Prop} {P : World β → Thread → Prop}
    {R : Trail β → Trail β → Prop} (k : Kept allowed May (fun t => P t.world t.thread) R)
    (hb : ∀ b v this args, (host.body b v this args).Uses allowed) (hstart : P {} {})
    (hregistry : ∀ w th rows, P w th → P (w.newRegistry rows).2 th)
    (hmachine : ∀ w th options core, w.registries.Live core.registry → P w th →
      P (w.newVmAround options core).2 th)
    {s : State β (Logged β H)} (hs : Reached host allowed s) {w : World β} {th : Thread}
    (hat : s.trail.At w th) : P w th := by
  refine Reached.inv k.everywhere hb ?_ ?_ ?_ hs w th hat
  · rintro w th (⟨rfl, rfl⟩ | ⟨x, hx, -⟩)
    · exact hstart
    · cases hx
  · intro t rows ht w th hat
    rcases Trail.at_of_log (t := t) hat (Or.inl rfl) with ⟨rfl, rfl⟩ | hat
    · exact hregistry _ _ rows (ht _ _ (Or.inl ⟨rfl, rfl⟩))
    · exact ht w th hat
  · intro t options core hcore ht w th hat
    rcases Trail.at_of_log (t := t) hat (Or.inl rfl) with ⟨rfl, rfl⟩ | hat
    · exact hmachine _ _ options core hcore (ht _ _ (Or.inl ⟨rfl, rfl⟩))
    · exact ht w th hat

/-- The same for each world with respect to all the later ones. -/
theorem Reached.ordered {host : Host β H} {allowed : Op β → Prop}
    {May : World β → VmRef → CellRef → ObjectRef → Prop} {P : World β → Prop}
    {S : World β → World β → Prop}
    (k : Kept allowed May (fun t => t.Ordered P S) (fun t u => S t.world u.world))
    (hb : ∀ b v this args, (host.body b v this args).Uses allowed) (hstart : P {})
    (hrefl : ∀ {w}, P w → S w w) (htrans : ∀ {w x y}, P x → P y → S w x → S x y → S w y)
    (hregistry : ∀ w rows, P w → P (w.newRegistry rows).2 ∧ S w (w.newRegistry rows).2)
    (hmachine : ∀ w options core, w.registries.Live core.registry → P w →
      P (w.newVmAround options core).2 ∧ S w (w.newVmAround options core).2)
    {s : State β (Logged β H)} (hs : Reached host allowed s) : s.trail.Ordered P S := by
  have step : ∀ {t : Trail β} {w : World β}, t.Ordered P S → P w ∧ S t.world w →
      Trail.Ordered P S { t with world := w } := fun ht h =>
    ht.step (hrefl h.1) (fun h' => htrans ht.now h.1 h' h.2) h.1 (Or.inl rfl)
  refine Reached.inv k hb ?_ ?_ ?_ hs
  · refine ⟨fun w hw => ?_, List.pairwise_singleton _ _⟩
    obtain rfl := List.mem_singleton.mp hw
    exact hstart
  · exact fun t rows ht => step ht (hregistry t.world rows ht.now)
  · exact fun t options core hcore ht => step ht (hmachine t.world options core hcore ht.now)

/-- The same where an invariant says so of the present and of the worlds before it. -/
theorem Reached.remembers {host : Host β H} {allowed : Op β → Prop}
    {May : World β → VmRef → CellRef → ObjectRef → Prop} {Inv : Trail β → Prop}
    {R : Trail β → Trail β → Prop} {P : World β → Prop} {S : World β → World β → Prop}
    (k : Kept allowed May Inv R)
    (h : ∀ {t : Trail β}, Inv t → P t.world ∧ ∀ w ∈ t.worlds, S w t.world)
    (hb : ∀ b v this args, (host.body b v this args).Uses allowed)
    (hstart : Inv ⟨{}, {}, []⟩)
    (hregistry : ∀ t rows, Inv t → Inv { t with world := (t.world.newRegistry rows).2 })
    (hmachine : ∀ t options core, t.world.registries.Live core.registry → Inv t →
      Inv { t with world := (t.world.newVmAround options core).2 })
    {s : State β (Logged β H)} (hs : Reached host allowed s) : s.trail.Ordered P S := by
  have step : ∀ {t : Trail β} {w : World β}, t.Ordered P S → Inv { t with world := w } →
      Trail.Ordered P S { t with world := w } := fun ht hw => by
    obtain ⟨hnow, hlater⟩ := h hw
    exact ht.extend (hlater _ List.mem_cons_self)
      (fun x hx => hlater x (List.mem_cons_of_mem _ hx)) hnow (Or.inl rfl)
  refine (Reached.inv (k.remembers h) hb ?_ ?_ ?_ hs).2
  · refine ⟨hstart, fun w hw => ?_, List.pairwise_singleton _ _⟩
    obtain rfl := List.mem_singleton.mp hw
    exact (h hstart).1
  · exact fun t rows ht => ⟨hregistry t rows ht.1, step ht.2 (hregistry t rows ht.1)⟩
  · exact fun t options core hcore ht =>
      ⟨hmachine t options core hcore ht.1, step ht.2 (hmachine t options core hcore ht.1)⟩

end Interception
