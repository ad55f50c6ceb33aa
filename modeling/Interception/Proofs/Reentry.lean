/-
No handler is entered again from inside its own window.

In per-call mode a call through a trampoline notes the trampoline and the receiver on
the thread before it enters the handler, and takes the note away when the handler is
done.  A log shows which intercepted calls are in progress at any moment: `inProgress`
reads their guards off it.  The invariant is that the thread's notes are exactly the keys
of these guards, innermost first, and no two of them are equal.  The check for a note
and the making of one are apart, but nothing happens between them, so a key already noted
is never noted again, and the note taken away is always the one on top.

Nothing writes into a cell in per-call mode, so while a call through a trampoline is in
progress the trampoline still remembers the cell it stood for when the call began.
-/
import Interception.Proofs.Restoration

namespace Interception

variable {β H : Type}

/-! ### Calls in progress -/

/-- The guards of the intercepted calls in progress after these events, innermost
first. -/
def inProgress : List (Moment β) → List (Guard β)
  | [] => []
  | x :: older =>
    match x.event with
    | .opened g => g :: inProgress older
    | .closed _ => (inProgress older).tail
    | _ => inProgress older

/-- The trampoline and the receiver of an intercepted call. -/
def Guard.key (g : Guard β) : WindowKey := ⟨g.trampoline, g.receiver⟩

/-- The keys of those guards that opened a window. -/
def windowKeys (guards : List (Guard β)) : List WindowKey :=
  (guards.filter fun g => !g.isPassthrough).map Guard.key

theorem mem_windowKeys {guards : List (Guard β)} {key : WindowKey} :
    key ∈ windowKeys guards ↔ ∃ g ∈ guards, g.isPassthrough = false ∧ g.key = key := by
  simp [windowKeys, and_assoc]

theorem windowKeys_cons_of_passthrough {g : Guard β} (h : g.isPassthrough = true)
    (guards : List (Guard β)) : windowKeys (g :: guards) = windowKeys guards := by
  simp [windowKeys, h]

theorem windowKeys_cons_of_window {g : Guard β} (h : g.isPassthrough = false)
    (guards : List (Guard β)) : windowKeys (g :: guards) = g.key :: windowKeys guards := by
  simp [windowKeys, h]

/-- A call in progress was begun. -/
theorem opened_of_mem_inProgress {log : List (Moment β)} {g : Guard β}
    (h : g ∈ inProgress log) :
    ∃ newer x older, log = newer ++ x :: older ∧ x.event = .opened g := by
  induction log with
  | nil => cases h
  | cons x older ih =>
    have earlier : g ∈ inProgress older →
        ∃ newer y rest, x :: older = newer ++ y :: rest ∧ y.event = .opened g := fun hg => by
      obtain ⟨newer, y, rest, hlog, hy⟩ := ih hg
      exact ⟨x :: newer, y, rest, by rw [hlog, List.cons_append], hy⟩
    unfold inProgress at h
    split at h
    · rename_i g' hx
      rcases List.mem_cons.mp h with rfl | hg
      · exact ⟨[], x, older, rfl, hx⟩
      · exact earlier hg
    · exact earlier (List.mem_of_mem_tail h)
    · exact earlier h

/-- What holds at a moment of a run in which every machine works per call. -/
structure Windowed (x : Moment β) (older : List (Moment β)) : Prop where
  /-- The thread notes the calls in progress that opened a window, and nothing else. -/
  stack : x.thread.windows = windowKeys (inProgress (x :: older))
  nodup : (windowKeys (inProgress (x :: older))).Nodup
  /-- An intercepted call begins in the frame just admitted for its trampoline, and opens
  a window unless the receiver is a proxy. -/
  opened : ∀ g, x.event = .opened g → ∃ v args rest y, older = y :: rest ∧
    y.event = .entered v g.trampoline g.receiver args ∧
    (y.world.content g.trampoline).isTrampoline = true ∧
    g.isPassthrough = y.world.isProxyInstance v g.receiver
  /-- The call that ends is the innermost. -/
  closed : ∀ g, x.event = .closed g → ∃ rest, inProgress older = g :: rest
  /-- No cell has changed since an earlier moment. -/
  cells : ∀ y ∈ older, y.world.cells.Keeps x.world.cells

/-! ### Machines that work per call -/

/-- Every machine drives a per-call core. -/
def World.PerCall (w : World β) : Prop := ∀ v, w.vms.Live v → (w.coreOf v).mode = .perCall

instance (w : World β) : Decidable w.PerCall :=
  decidable_of_iff (∀ v ∈ w.vms.refs, (w.coreOf v).mode = .perCall)
    (forall_congr' fun _ => imp_congr_left Store.mem_refs)

theorem World.PerCall.mode {w : World β} (h : w.PerCall) (v : VmRef) :
    (w.coreOf v).mode = .perCall := by
  by_cases hv : w.vms.Live v
  · exact h v hv
  · rw [World.coreOf, Store.get_of_not_live hv]
    rfl

/-- Machines never change their core, so earlier ones worked per call too. -/
theorem World.Grows.perCall {w w' : World β} (h : w.Grows w') (h' : w'.PerCall) : w.PerCall := by
  intro v hv
  rw [← h.coreOf hv]
  exact h' v (h.vms v hv).1

/-! ### The invariant -/

/-- The thread is as the calls in progress ask, now and at every earlier moment. -/
structure Regular (t : Trail β) : Prop where
  stack : t.thread.windows = windowKeys (inProgress t.log)
  nodup : (windowKeys (inProgress t.log)).Nodup
  grows : ∀ y ∈ t.log, y.world.Grows t.world
  cells : ∀ y ∈ t.log, y.world.cells.Keeps t.world.cells
  past : ∀ newer x older, t.log = newer ++ x :: older → Windowed x older

/-- What a piece of a run with every window closed again does. -/
structure Steady (t u : Trail β) : Prop where
  grows : t.world.Grows u.world
  calls : inProgress u.log = inProgress t.log
  cells : u.world.PerCall → t.world.cells.Keeps u.world.cells

namespace Steady

theorem refl (t : Trail β) : Steady t t := ⟨.refl _, rfl, fun _ => .refl _⟩

theorem trans {t u x : Trail β} (h : Steady t u) (h' : Steady u x) : Steady t x where
  grows := h.grows.trans h'.grows
  calls := h'.calls.trans h.calls
  cells hx := (h.cells (h'.grows.perCall hx)).trans (h'.cells hx)

end Steady

namespace Regular

variable {t u : Trail β}

/-- A change to the world alone. -/
theorem of_extends {w : World β} {n : Nat} (h : Regular t) (hw : World.Extends n t.world w) :
    Regular { t with world := w } where
  stack := h.stack
  nodup := h.nodup
  grows y hy := (h.grows y hy).trans hw.grows
  cells y hy := (h.cells y hy).trans hw.cells
  past := h.past

/-- One more event. -/
theorem of_event {e : Event β} (h : Regular t) (hgrows : t.world.Grows u.world)
    (hlog : u.log = ⟨e, u.world, u.thread⟩ :: t.log)
    (hnew : Windowed ⟨e, u.world, u.thread⟩ t.log) : Regular u where
  stack := by
    rw [hlog]
    exact hnew.stack
  nodup := by
    rw [hlog]
    exact hnew.nodup
  grows y hy := by
    rw [hlog] at hy
    rcases List.mem_cons.mp hy with rfl | hy
    · exact .refl _
    · exact (h.grows y hy).trans hgrows
  cells y hy := by
    rw [hlog] at hy
    rcases List.mem_cons.mp hy with rfl | hy
    · exact .refl _
    · exact hnew.cells y hy
  past newer x older hsplit := by
    rw [hlog] at hsplit
    cases newer with
    | nil =>
      cases hsplit
      exact hnew
    | cons y rest => exact h.past rest x older (List.cons.inj hsplit).2

end Regular

/-! ### Events outside windows -/

/-- The event neither opens nor closes a window. -/
def Event.OutsideWindows : Event β → Prop
  | .opened _ | .closed _ => False
  | _ => True

theorem inProgress_cons {e : Event β} (he : e.OutsideWindows) (w : World β) (th : Thread)
    (log : List (Moment β)) : inProgress (⟨e, w, th⟩ :: log) = inProgress log := by
  cases e with
  | opened g => cases he
  | closed g => cases he
  | _ => rfl

theorem Event.IsQuiet.outsideWindows {e : Event β} (he : e.IsQuiet) : e.OutsideWindows := by
  cases e with
  | refused _ _ _ => trivial
  | performed _ => trivial
  | _ => cases he

/-- Closing a window ends the innermost call in progress. -/
theorem inProgress_finish {u : Trail β} {g g' : Guard β} {older : List (Guard β)}
    (h : inProgress u.log = g :: older) : inProgress (u.finish g').log = older := by
  show (inProgress u.log).tail = older
  rw [h]
  rfl

/-- Noting such an event on a thread with the same windows. -/
theorem Regular.outside {t : Trail β} (h : Regular t) {e : Event β} (he : e.OutsideWindows)
    {th : Thread} (hth : th.windows = t.thread.windows) :
    Regular (({ t with thread := th } : Trail β).note e) := by
  refine h.of_event (.refl _) rfl ?_
  have hkeys := inProgress_cons he t.world th t.log
  exact
    { stack := by
        show th.windows = windowKeys (inProgress (⟨e, t.world, th⟩ :: t.log))
        rw [hkeys, hth]
        exact h.stack
      nodup := by
        show (windowKeys (inProgress (⟨e, t.world, th⟩ :: t.log))).Nodup
        rw [hkeys]
        exact h.nodup
      opened := fun g hg => by
        have hg' : e = .opened g := hg
        rw [hg'] at he
        cases he
      closed := fun g hg => by
        have hg' : e = .closed g := hg
        rw [hg'] at he
        cases he
      cells := h.cells }

theorem Steady.outside {t : Trail β} {e : Event β} (he : e.OutsideWindows) (th : Thread) :
    Steady t (({ t with thread := th } : Trail β).note e) :=
  ⟨.refl _, inProgress_cons he _ _ _, fun _ => .refl _⟩

/-! ### Windows -/

/-- A guard opened on a machine that works per call. -/
structure Guard.PerCall (g : Guard β) : Prop where
  noToken : ∀ i token, g.window ≠ .classWide i token
  noted : ∀ i key, g.window = .perCall i key → key = g.key

section Windows

variable {t u : Trail β} {v : VmRef} {m : CellRef} {this : ObjectRef} {args : List Value}

/-- What opening a window does on a machine that works per call, where there is a
handler. -/
theorem begins_perCall (hmode : (t.world.coreOf v).mode = .perCall) {handler : ObjectRef}
    (hh : t.world.handlerOf v (t.world.coreOf v) this = some handler) :
    (t.guardFor v (t.world.coreOf v) this m).PerCall ∧
    (t.guardFor v (t.world.coreOf v) this m).trampoline = m ∧
    (t.guardFor v (t.world.coreOf v) this m).receiver = this ∧
    (t.guardFor v (t.world.coreOf v) this m).isPassthrough = t.world.isProxyInstance v this ∧
    (t.begin v (t.world.coreOf v) this m).world.cells = t.world.cells ∧
    (t.begin v (t.world.coreOf v) this m).thread.windows =
      windowKeys [t.guardFor v (t.world.coreOf v) this m] ++ t.thread.windows := by
  have hopens := World.opens_openWindow t.world t.thread v (t.world.coreOf v) this m
  unfold Trail.begin Trail.guardFor
  generalize t.world.openWindow t.thread v (t.world.coreOf v) this m = x at hopens ⊢
  cases hopens with
  | passthrough h =>
    refine ⟨⟨?_, ?_⟩, rfl, rfl, ?_, rfl, rfl⟩
    · intro i token hw
      cases hw
    · intro i key hw
      cases hw
    · rcases h with hp | hnone
      · exact hp.symm
      · -- Without an entry only a proxy has a handler.
        unfold World.handlerOf at hh
        split at hh
        · rename_i hp
          exact hp.symm
        · rw [hnone] at hh
          cases hh
  | perCall hp hr _ =>
    refine ⟨⟨?_, ?_⟩, rfl, rfl, hp.symm, rfl, rfl⟩
    · intro i token hw
      cases hw
    · intro i key hw
      cases hw
      rfl
  | classWide _ _ hm =>
    rw [hmode] at hm
    cases hm

/-- Closing the innermost of the windows noted takes its note away. -/
theorem finish_windows {g : Guard β} {older : List (Guard β)} (hg : g.PerCall)
    (hstack : u.thread.windows = windowKeys (g :: older)) :
    (u.finish g).thread.windows = windowKeys older ∧ (u.finish g).world.cells = u.world.cells := by
  obtain ⟨r, c, o, window⟩ := g
  cases window with
  | passthrough => exact ⟨hstack, rfl⟩
  | perCall i key =>
    refine ⟨?_, rfl⟩
    have hk : key = ⟨c, o⟩ := hg.noted i key rfl
    have hcons : windowKeys (⟨r, c, o, .perCall i key⟩ :: older) =
        (⟨c, o⟩ : WindowKey) :: windowKeys older := rfl
    show u.thread.windows.erase key = windowKeys older
    rw [hstack, hcons, hk, List.erase_cons_head]
  | classWide i token => exact absurd rfl (hg.noToken i token)

theorem Regular.begin (h : Regular t) (hmode : (t.world.coreOf v).mode = .perCall)
    {handler : ObjectRef} (hh : t.world.handlerOf v (t.world.coreOf v) this = some handler)
    (hent : t.Entered v m this args) (htramp : (t.world.content m).isTrampoline = true)
    (hout : t.thread.inWindow m this = false) :
    Regular (t.begin v (t.world.coreOf v) this m) := by
  obtain ⟨-, hm, hthis, hproxy, hcells, hwindows⟩ := begins_perCall (m := m) hmode hh
  have hgrows := t.grows_begin v (t.world.coreOf v) this m
  generalize hg : t.guardFor v (t.world.coreOf v) this m = g at hm hthis hproxy hwindows
  have hlog : (t.begin v (t.world.coreOf v) this m).log =
      ⟨.opened g, (t.begin v (t.world.coreOf v) this m).world,
        (t.begin v (t.world.coreOf v) this m).thread⟩ :: t.log := by
    rw [← hg]
    rfl
  generalize t.begin v (t.world.coreOf v) this m = b at hgrows hcells hwindows hlog ⊢
  have hstack : b.thread.windows = windowKeys (g :: inProgress t.log) := by
    rw [hwindows, h.stack]
    show _ = windowKeys ([g] ++ inProgress t.log)
    simp only [windowKeys, List.filter_append, List.map_append]
  have hnew : (windowKeys (g :: inProgress t.log)).Nodup := by
    by_cases hp : g.isPassthrough = true
    · rw [windowKeys_cons_of_passthrough hp]
      exact h.nodup
    · rw [windowKeys_cons_of_window (Bool.eq_false_iff.mpr hp), List.nodup_cons]
      refine ⟨?_, h.nodup⟩
      rw [← h.stack]
      show (⟨g.trampoline, g.receiver⟩ : WindowKey) ∉ t.thread.windows
      rw [hm, hthis]
      simpa [Thread.inWindow] using hout
  refine h.of_event hgrows hlog
    { stack := hstack
      nodup := hnew
      opened := fun g' hg' => ?_
      closed := fun g' hg' => by cases hg'
      cells := fun y hy => by
        rw [hcells]
        exact h.cells y hy }
  cases hg'
  obtain ⟨rest, hrest⟩ := hent
  rw [hm, hthis]
  exact ⟨v, args, rest, _, hrest, rfl, htramp, hproxy⟩

theorem Regular.finish {g : Guard β} {older : List (Guard β)} (hu : Regular u)
    (hg : g.PerCall) (hcalls : inProgress u.log = g :: older) :
    Regular (u.finish g) ∧ inProgress (u.finish g).log = older ∧
      (u.finish g).world.cells = u.world.cells := by
  have hstack := hu.stack
  have hnodup := hu.nodup
  rw [hcalls] at hstack hnodup
  obtain ⟨hwindows, hcells⟩ := finish_windows hg hstack
  have hgrows := u.grows_finish g
  have hlog : (u.finish g).log =
      ⟨.closed g, (u.finish g).world, (u.finish g).thread⟩ :: u.log := rfl
  have hleft : inProgress (⟨.closed g, (u.finish g).world, (u.finish g).thread⟩ :: u.log) =
      older := inProgress_finish hcalls
  refine ⟨hu.of_event hgrows hlog ?_, hleft, hcells⟩
  exact
    { stack := by
        rw [hleft]
        exact hwindows
      nodup := by
        rw [hleft]
        exact hnodup.sublist (((List.sublist_cons_self g older).filter _).map _)
      opened := fun g' hg' => by cases hg'
      closed := fun g' hg' => by
        cases hg'
        exact ⟨older, hcalls⟩
      cells := fun y hy => by
        rw [hcells]
        exact hu.cells y hy }

end Windows

/-! ### Every run -/

/-- Every ordinary run closes the windows it opens. -/
theorem kept_inProgress : Kept (β := β) (fun op => op.IsOrdinary = true) (fun _ _ _ _ => True)
    (fun _ => True) (fun t u => inProgress u.log = inProgress t.log) where
  ordinary h := h
  refl _ := rfl
  trans _ _ h h' := h'.trans h
  note {t _} he _ := ⟨trivial, inProgress_cons he.outsideWindows t.world t.thread t.log⟩
  define _ _ _ := ⟨trivial, rfl⟩
  allocate _ _ := ⟨trivial, rfl⟩
  setField _ _ _ := ⟨trivial, rfl⟩
  frame _ _ _ _ := ⟨trivial, fun _ _ h => ⟨trivial, h⟩⟩
  window _ _ _ _ _ _ := ⟨trivial, fun _ _ h => ⟨trivial, inProgress_finish h⟩⟩
  slot _ _ := trivial
  direct _ _ _ := trivial
  method _ _ _ _ := trivial
  execute _ _ := trivial
  replaced _ _ _ _ := trivial

/-- Every ordinary run in which all machines work per call keeps the thread as the calls
in progress ask. -/
theorem kept_regular : Kept (β := β) (fun op => op.IsOrdinary = true) (fun _ _ _ _ => True)
    (fun t => t.world.PerCall → Regular t) Steady where
  ordinary h := h
  refl _ := .refl _
  trans _ _ h h' := h.trans h'
  note {t e} he ht := ⟨fun hp => (ht hp).outside he.outsideWindows rfl,
    .outside he.outsideWindows t.thread⟩
  define {t v d c w} _ ht hd := by
    have hext := World.extends_define hd
    exact ⟨fun hp => (ht (hext.grows.perCall hp)).of_extends hext,
      hext.grows, rfl, fun _ => hext.cells⟩
  allocate {t v c} _ ht := by
    have hext := World.extends_allocate 0 t.world v c
    exact ⟨fun hp => (ht (hext.grows.perCall hp)).of_extends hext,
      hext.grows, rfl, fun _ => hext.cells⟩
  setField {t o i x w} _ ht hf := by
    have hext := World.extends_setField 0 hf
    exact ⟨fun hp => (ht (hext.grows.perCall hp)).of_extends hext,
      hext.grows, rfl, fun _ => hext.cells⟩
  frame {t v m this} args ht _ _ := by
    refine ⟨fun hp => (ht hp).outside (e := .entered v m this args) trivial rfl, fun u hu h => ?_⟩
    have henter : Steady t (t.enter v m this args) :=
      .outside (e := .entered v m this args) trivial _
    have hleave : Steady u (u.leave v m this) := .outside (e := .left v m this) trivial _
    exact ⟨fun hp => (hu hp).outside (e := .left v m this) trivial rfl,
      (henter.trans h).trans hleave⟩
  window {t v m this args replaced handler} ht _ hent hr hw hh := by
    have hgrows := t.grows_begin v (t.world.coreOf v) this m
    have htramp := Descriptor.isTrampoline_of_replaced? hr
    have hout : (t.world.coreOf v).mode = .perCall → t.thread.inWindow m this = false :=
      fun hmode => by
        cases hin : t.thread.inWindow m this with
        | false => rfl
        | true => exact absurd ⟨hmode, hin⟩ hw
    refine ⟨fun hp => ?_, fun u hu h => ?_⟩
    · have hmode := (hgrows.perCall hp).mode v
      exact (ht (hgrows.perCall hp)).begin hmode hh hent htramp (hout hmode)
    · have hcalls : inProgress u.log =
          t.guardFor v (t.world.coreOf v) this m :: inProgress t.log := h.calls
      have hclose := u.grows_finish (t.guardFor v (t.world.coreOf v) this m)
      refine ⟨fun hp => ?_, (hgrows.trans h.grows).trans hclose, inProgress_finish hcalls,
        fun hp => ?_⟩
      · have hu' := hclose.perCall hp
        obtain ⟨hguard, -⟩ := begins_perCall (m := m)
          ((hgrows.perCall (h.grows.perCall hu')).mode v) hh
        exact ((hu hu').finish hguard hcalls).1
      · have hu' := hclose.perCall hp
        obtain ⟨hguard, -, -, -, hcells, -⟩ := begins_perCall (m := m)
          ((hgrows.perCall (h.grows.perCall hu')).mode v) hh
        obtain ⟨-, -, hcells'⟩ := (hu hu').finish hguard hcalls
        have hinside := h.cells hu'
        rw [hcells] at hinside
        rw [hcells']
        exact hinside
  slot _ _ := trivial
  direct _ _ _ := trivial
  method _ _ _ _ := trivial
  execute _ _ := trivial
  replaced _ _ _ _ := trivial

section Reached

variable {host : Host β H} {s : State β (Logged β H)}

theorem Reached.regular
    (hb : ∀ b v this args, (host.body b v this args).Uses fun op => op.IsOrdinary = true)
    (hs : Reached host (fun op => op.IsOrdinary = true) s) (hmode : s.world.PerCall) :
    Regular s.trail := by
  refine Reached.inv kept_regular hb ?_ ?_ ?_ hs hmode
  · intro _
    exact
      { stack := rfl
        nodup := List.nodup_nil
        grows := fun y hy => by cases hy
        cells := fun y hy => by cases hy
        past := fun newer x older h => by cases newer <;> cases h }
  · intro t rows ht hp
    have hext := World.extends_newRegistry 0 t.world rows
    exact (ht (hext.grows.perCall hp)).of_extends hext
  · intro t options core _ ht hp
    have hext := World.extends_newVmAround t.world options core
    exact (ht (hext.grows.perCall hp)).of_extends hext

/-- **No handler is entered again.**  At every moment of a run of ordinary bodies on
machines that work per call, the thread notes exactly the calls in progress that opened a
window, no two with one key.  Until such a call ends, its trampoline runs on its receiver
what it stands for, whoever asks; on any other receiver, and any other trampoline, the
way goes by the handler of the receiver alone. -/
theorem Reached.routes
    (hb : ∀ b v this args, (host.body b v this args).Uses fun op => op.IsOrdinary = true)
    (hs : Reached host (fun op => op.IsOrdinary = true) s) (hmode : s.world.PerCall)
    {newer older : List (Moment β)} {x : Moment β} (hlog : s.host.2 = newer ++ x :: older) :
    Windowed x older ∧
    (∀ g ∈ inProgress (x :: older), g.isPassthrough = false →
      ∃ original, (x.world.content g.trampoline).replaced? = some original ∧
        ∀ v args (n : Nat) (h : H) log, x.thread.depth < x.world.maxDepth v →
          execute host.logged (n + 1) v g.trampoline g.receiver args
              ⟨x.world, x.thread, (h, log)⟩ =
            inFrame host.logged v g.trampoline g.receiver args
              (execute host.logged n v original g.receiver args)
              ⟨x.world, x.thread, (h, log)⟩) ∧
    ∀ m this original, (x.world.content m).replaced? = some original →
      (∀ g ∈ inProgress (x :: older), g.isPassthrough = false → g.key ≠ ⟨m, this⟩) →
      ∀ v args (n : Nat) (h : H) log, x.thread.depth < x.world.maxDepth v →
        execute host.logged (n + 1) v m this args ⟨x.world, x.thread, (h, log)⟩ =
          inFrame host.logged v m this args
            (match x.world.handlerOf v (x.world.coreOf v) this with
              | none => execute host.logged n v original this args
              | some handler => invokeHandler host.logged (execute host.logged n) v
                  (x.world.coreOf v) handler m this args)
            ⟨x.world, x.thread, (h, log)⟩ := by
  have hreg := hs.regular hb hmode
  have hx : Windowed x older := hreg.past newer x older hlog
  have hpercall : x.world.PerCall :=
    (hreg.grows x (by show x ∈ s.host.2; rw [hlog]; simp)).perCall hmode
  refine ⟨hx, fun g hg hopen => ?_, fun m this original hr hnone v args n h log hd => ?_⟩
  · -- The trampoline still holds what it held when the call began.
    obtain ⟨between, y, before, hsplit, hy⟩ := opened_of_mem_inProgress hg
    have hlog' : s.host.2 = (newer ++ between) ++ y :: before := by
      rw [hlog, hsplit, List.append_assoc]
    obtain ⟨v', args', rest, z, hbefore, -, htramp, -⟩ :=
      (hreg.past _ _ _ hlog').opened g hy
    have hz : z ∈ older := by
      cases between with
      | nil =>
        obtain ⟨-, rfl⟩ := List.cons.inj hsplit
        rw [hbefore]
        exact List.mem_cons_self
      | cons _ between =>
        obtain ⟨-, rfl⟩ := List.cons.inj hsplit
        rw [hbefore]
        simp
    have hkeeps : x.world.content g.trampoline = z.world.content g.trampoline := by
      refine (hx.cells z hz _ (Store.live_of_get_ne fun hdefault => ?_)).2
      rw [show z.world.content g.trampoline = default from hdefault] at htramp
      cases htramp
    rw [Descriptor.isTrampoline, Option.isSome_iff_exists] at htramp
    obtain ⟨original, horiginal⟩ := htramp
    have hr : (x.world.content g.trampoline).replaced? = some original := by
      rw [hkeeps, horiginal]
    refine ⟨original, hr, fun v args n h log hd => ?_⟩
    have hkey : g.key ∈ x.thread.windows := by
      rw [hx.stack]
      exact mem_windowKeys.mpr ⟨g, hg, hopen, rfl⟩
    have hin : x.thread.inWindow g.trampoline g.receiver = true := by
      simpa [Thread.inWindow, Guard.key] using hkey
    rw [execute_trampoline host.logged hd hr]
    exact inFrame_congr _ (invokeTrampoline_inWindow _ _ hr ⟨hpercall.mode v, hin⟩)
  · have hout : ¬ ((x.world.coreOf v).mode = .perCall ∧ x.thread.inWindow m this = true) := by
      rintro ⟨-, hin⟩
      have hkey : (⟨m, this⟩ : WindowKey) ∈ x.thread.windows := by
        simpa [Thread.inWindow] using hin
      rw [hx.stack] at hkey
      obtain ⟨g, hg, hopen, hkey⟩ := mem_windowKeys.mp hkey
      exact hnone g hg hopen hkey
    rw [execute_trampoline host.logged hd hr]
    refine inFrame_congr _ ?_
    cases hh : x.world.handlerOf v (x.world.coreOf v) this with
    | none => exact invokeTrampoline_unbound _ _ hr hh
    | some handler => exact invokeTrampoline_handled _ _ hr hout hh

end Reached

/-- In the frame of the demonstration's handler, where one window is open: the method called
again runs in two frames what its trampoline stands for. -/
theorem Demo.routes_in_handler : ∃ newer x older original,
    (opened .perCall).host.2 = newer ++ x :: older ∧
    windowKeys (inProgress (x :: older)) = [⟨⟨2⟩, ⟨0⟩⟩] ∧
    Windowed x older ∧ (x.world.content ⟨2⟩).replaced? = some original ∧
    ∀ args n h log, x.thread.depth < x.world.maxDepth ⟨0⟩ →
      execute host.logged (n + 1) ⟨0⟩ ⟨2⟩ ⟨0⟩ args ⟨x.world, x.thread, (h, log)⟩ =
        inFrame host.logged ⟨0⟩ ⟨2⟩ ⟨0⟩ args (execute host.logged n ⟨0⟩ original ⟨0⟩ args)
          ⟨x.world, x.thread, (h, log)⟩ := by
  have hlength : 9 < (opened .perCall).host.2.length := by decide +kernel
  have hkeys : windowKeys (inProgress ((opened .perCall).host.2.drop 9)) = [⟨⟨2⟩, ⟨0⟩⟩] := by
    decide +kernel
  have hmode : (opened .perCall).world.PerCall := by
    have hone : (opened .perCall).world.vms.size = 1 := by decide +kernel
    intro v hv
    obtain ⟨i⟩ := v
    have hi : i = 0 := by
      have : i < (opened .perCall).world.vms.size := hv
      omega
    subst hi
    decide +kernel
  have hlog : (opened .perCall).host.2 = (opened .perCall).host.2.take 9 ++
      (opened .perCall).host.2[9] :: (opened .perCall).host.2.drop 10 := by
    rw [← List.drop_eq_getElem_cons hlength, List.take_append_drop]
  rw [List.drop_eq_getElem_cons hlength] at hkeys
  generalize (opened .perCall).host.2[9] = x at hkeys hlog
  generalize (opened .perCall).host.2.drop 10 = older at hkeys hlog
  obtain ⟨hx, hinside, -⟩ := Reached.routes uses_body (reached_opened .perCall) hmode hlog
  obtain ⟨g, hg, hopen, hkey⟩ := mem_windowKeys.mp (hkeys ▸ List.mem_cons_self)
  obtain ⟨original, horiginal, hexec⟩ := hinside g hg hopen
  obtain ⟨htramp, hreceiver⟩ := WindowKey.mk.inj hkey
  rw [htramp] at horiginal
  rw [htramp, hreceiver] at hexec
  exact ⟨_, x, older, original, hlog, hkeys, hx, horiginal, fun args n h log hd =>
    hexec ⟨0⟩ args n h log hd⟩

end Interception
