/-
What a window puts in the place of a trampoline.

A trampoline names the cell it replaced, but a class-wide window does not follow it.  It looks
the trampoline's slot up among the cells that the receiver's nearest row replaced.  The two are
the same where the trampoline is that row's own and holds what patching put there.  It need not
be: a handle can name a trampoline of another class, and a class may be linked while another
class above it has its other table.  What a call through then runs is not what the trampoline
stands before.
-/
import Interception.Proofs.Lending
import Interception.Proofs.Dispatching
import Interception.Proofs.Slots

namespace Interception

variable {β H : Type}

namespace World

variable {w : World β} {v : VmRef} {this : ObjectRef} {i k : Nat} {r : Resolution} {m o : CellRef}

/-- The receiver's nearest row put the trampoline where the window looks. -/
structure OwnRow (w : World β) (v : VmRef) (this : ObjectRef) (m : CellRef) (i : Nat)
    (r : Resolution) : Prop where
  ordinary : w.isProxyInstance v this = false
  classWide : (w.coreOf v).mode = .classWide
  row : w.interceptionOf (w.coreOf v).registry (w.classOf this) = some (i, r)
  mem : m ∈ w.tables.get r.intercepted

/-- The window shows what the row replaced there. -/
theorem OwnRow.source (h : w.OwnRow v this m i r) (hw : w.Sound) :
    ∃ (k : Nat) (o : CellRef), (w.tables.get r.intercepted)[k]? = some m ∧
      (w.tables.get r.unpatched)[k]? = some o ∧ w.source v this m = o := by
  obtain ⟨-, hres, -⟩ := interceptionOf_eq_some.mp h.row
  obtain ⟨k, hk⟩ := List.mem_iff_getElem?.mp h.mem
  obtain ⟨name, hname⟩ :=
    (hw.tabled.intercepted hres).named (List.getElem?_eq_some_iff.mp hk).1
  obtain ⟨o, ho⟩ := (hw.tabled.unpatched hres).exists_cell hname
  refine ⟨k, o, hk, ho, ?_⟩
  simp only [World.source, h.ordinary, h.classWide, h.row,
    ((hw.tabled.intercepted hres).cells hk).2, ho, Option.getD_some]

/-- If it is listed and stands for something, this is what it stands for. -/
theorem StandsFor.source_eq (h : w.StandsFor m) (hw : w.Sound) (hown : w.OwnRow v this m i r)
    (hlisted : (w.entry (w.coreOf v).registry i).row.intercepts (w.content m).name = true)
    (ho : (w.content m).replaced? = some o) : w.source v this m = o := by
  obtain ⟨k, o', hk, ho', hsource⟩ := hown.source hw
  obtain ⟨-, hres, -⟩ := interceptionOf_eq_some.mp hown.row
  have hstands := h hres hk ho' hlisted
  rw [ho] at hstands
  rw [hsource, Option.some.inj hstands]

/-- Where rows are not stacked every trampoline does. -/
theorem Faithful.source_eq (hf : w.Faithful) (hw : w.Sound) (hu : w.Unstacked)
    (hown : w.OwnRow v this m i r) (ho : (w.content m).replaced? = some o) :
    w.source v this m = o := by
  obtain ⟨k, o', hk, ho', hsource⟩ := hown.source hw
  obtain ⟨-, hres, -⟩ := interceptionOf_eq_some.mp hown.row
  obtain ⟨-, hcontent⟩ := hf.of_isTrampoline hw hu
    (Descriptor.isTrampoline_of_replaced? ho) hres hk ho'
  rw [hcontent] at ho
  rw [hsource]
  exact Option.some.inj ho

/-- And what is found in the receiver's table there is the one row's own. -/
theorem Sound.mem_intercepted (hw : w.Sound) (hu : w.Unstacked)
    (hr : w.interceptionOf (w.coreOf v).registry (w.classOf this) = some (i, r))
    (hm : w.methodAt (w.classOf this) k = some m) (htramp : (w.content m).isTrampoline = true) :
    m ∈ w.tables.get r.intercepted := by
  obtain ⟨-, hres, hmem⟩ := interceptionOf_eq_some.mp hr
  have hc := hw.live_of_patched hres hmem
  obtain ⟨g', i', r', j, hr', hj⟩ := hw.tabled.copied htramp
  obtain ⟨hmem', -⟩ := (hw.tabled.current _ hc).copies hm hr' hj
  obtain ⟨-, -, rfl⟩ := hw.patched_once hu hc hres hr' hmem hmem'
  exact List.mem_of_getElem? hj

end World

/-- What the cell holds while the window opened at this moment is in progress and none inside
it, opened through the cell, is. -/
def Shows (log : List (Moment β)) (x : Moment β) (m : CellRef) (d : Descriptor β) : Prop :=
  ∀ later z between, log = later ++ z :: between → Within x m (z :: between) →
    z.world.content m = d

/-- How a window that was opened in this world treats its trampoline: it shows what its lookup
found, that and nothing else, and if this is no trampoline, at every moment.  The lookup finds
what the trampoline stands for if the receiver's nearest row put it there, lists it, and it is
not lent; or if rows are not stacked, and then a trampoline found in the receiver's table is
one that the row put there. -/
structure Replaces (log : List (Moment β)) (x : Moment β) (older : List (Moment β)) (w : World β)
    (v : VmRef) (this : ObjectRef) (m : CellRef) : Prop where
  shows : ∀ d, Shows log x m d ↔ w.content (w.source v this m) = d
  always : (w.content (w.source v this m)).isTrampoline = false →
    ∀ later z between, log = later ++ z :: between → x ∈ openings (z :: between) →
      z.world.content m = w.content (w.source v this m)
  own : ∀ {i r o}, w.OwnRow v this m i r → (w.content m).replaced? = some o →
    ((w.entry (w.coreOf v).registry i).row.intercepts (w.content m).name = true ∧
      ¬ Lent older m) ∨ w.Unstacked → w.source v this m = o
  dispatched : ∀ {i r k}, w.Unstacked →
    w.interceptionOf (w.coreOf v).registry (w.classOf this) = some (i, r) →
    w.methodAt (w.classOf this) k = some m → m ∈ w.tables.get r.intercepted

section Reached

variable {host : Host β H} {s : State β (Logged β H)} {newer older : List (Moment β)}
  {x : Moment β} {g : Guard β}

/-- **What a window installs.**  In a run of ordinary bodies, whatever the rows and the modes, a
window is opened right after the frame of a trampoline was admitted; and until it is closed the
trampoline holds, wherever no window inside was opened through it, what the lookup found in the
world of that moment, which is what it stood for only under the conditions named. -/
theorem Reached.replaces
    (hb : ∀ b v this args, (host.body b v this args).Uses fun op => op.IsOrdinary = true)
    (hs : Reached host (fun op => op.IsOrdinary = true) s)
    (hlog : s.host.2 = newer ++ x :: older) (hx : x.event = .opened g) :
    ∃ v args y past o, older = y :: past ∧
      y.event = .entered v g.trampoline g.receiver args ∧
      (y.world.content g.trampoline).replaced? = some o ∧
      Replaces s.host.2 x older y.world v g.receiver g.trampoline := by
  have hspans := hs.spans hb
  obtain ⟨u, v, handler, args, past, rfl, hlogu, hopens, -, -⟩ := hspans.opening hlog hx
  have htramp := hopens.trampoline
  obtain ⟨o, ho⟩ := Option.isSome_iff_exists.mp htramp
  refine ⟨v, args, _, past, o, rfl, rfl, ho, ?_⟩
  obtain ⟨hw, hintact⟩ := hs.standsFor hb _ _ _ hlogu
  obtain ⟨hlive, hshown⟩ := hopens.shown hw.tabled
  have hat : s.trail.At u.world u.thread :=
    Or.inr ⟨_, hlogu ▸ List.mem_append_right _ List.mem_cons_self, rfl, rfl⟩
  have hfaithful := (hs.faithful hb hat).2
  exact
    { shows := fun d => by
        constructor
        · intro hd
          exact hshown.symm.trans (hd newer x _ hlog (within_opened hx _ _))
        · rintro rfl later z between hz hin
          exact (hspans.content_within hz hin hlive).trans hshown
      always := fun hplain later z between hz hmem => by
        obtain ⟨inner, outer, hopen⟩ := List.append_of_mem hmem
        have hin := hspans.within hz hopen hlive (hshown ▸ hplain)
        exact (hspans.content_within hz hin hlive).trans hshown
      own := fun hown ho hcase => by
        rcases hcase with ⟨hlisted, hlent⟩ | hu
        · have hstands : u.world.StandsFor g.trampoline :=
            hintact _ (hw.tabled.copied htramp) hlent
          exact hstands.source_eq hw hown hlisted ho
        · exact (hfaithful hu).source_eq hw hu hown ho
      dispatched := fun hu hr hm => hw.mem_intercepted hu hr hm htramp }

end Reached

namespace Demo

/-- What bodies do: a handler calls through or calls the method of its first argument, a method
is declared or overrides one. -/
inductive Role where
  | forwards
  | relays
  | declared
  | overriding
  deriving DecidableEq, Repr

def Role.act (b : Role) (v : VmRef) (caller : ClassRef) (args : List Value) :
    Program Role (List Role) Value :=
  match b, args with
  | .forwards, .object target :: .method m :: rest =>
    .perform (.callMethod v (some caller) m target rest)
  | .relays, _ :: _ :: .object other :: _ => .perform (.callVirtual v other methodName [])
  | _, _ => pure .null

/-- The host writes down which bodies ran, the last one first. -/
def recorder : Host Role (List Role) where
  body b v this args := do
    let caller ← Program.modifyGet fun w ran => (w.classOf this, b :: ran)
    b.act v caller args

theorem uses_recorder {allowed : Op Role → Prop}
    (hmethod : ∀ {v caller m this args}, allowed (.callMethod v caller m this args))
    (hvirtual : ∀ {v this name args}, allowed (.callVirtual v this name args)) (b : Role)
    (v : VmRef) (this : ObjectRef) (args : List Value) :
    (recorder.body b v this args).Uses allowed := by
  refine .bind (fun _ _ => trivial) fun caller => ?_
  fun_cases Role.act b v caller args
  · exact .perform hmethod
  · exact .perform hvirtual
  · trivial

/-- A class of handlers whose `invoke` is this. -/
def handlerDeclOf (name : String) (b : Role) : ClassDecl Role :=
  { name, virtuals := [{ name := handlerMethod, body := some b }] }

/-- A class with a method of its own. -/
def resumable (name : String) (above? : Option String) (b : Role) : ClassDecl Role :=
  { name
    extends? := above?
    fields := if above?.isNone then [⟨handlerFieldName, handlerFieldType⟩] else []
    virtuals := [{ name := methodName, body := some b }] }

/-- Define the activity and a class below it that overrides the method, and call the activity's
by its handle on an instance of the class below. -/
def crossing (v : VmRef) : Program Role (List Role) Value := do
  let _ ← Program.perform (.define v (handlerDeclOf handlerName .forwards))
  let c ← Program.perform (.define v (resumable activityName none .declared))
  let d ← Program.perform (.define v (resumable subactivityName (some activityName) .overriding))
  let o ← Program.perform (.allocate v d)
  let m ← Program.look fun w => (w.methodAt c 0).getD default
  Program.perform (.callMethod v none m o [])

/-- The state after that, where the method is intercepted in both classes. -/
def crossed (mode : SwapMode) : State Role (Logged Role (List Role)) :=
  ((crossing ⟨0⟩).lift.start recorder.logged
    ⟨(World.newVm {} { rows := stackedRows, mode, maxDepth := 32 }).2, {}, ([], [])⟩).2

theorem checked_crossed (mode : SwapMode) :
    Reached recorder (fun op => op.IsChecked = true) (crossed mode) := by
  have hmachine : Reached recorder (fun op => op.IsChecked = true) _ :=
    .newVm ([] : List Role) { rows := stackedRows, mode, maxDepth := 32 }
  refine hmachine.run (crossing ⟨0⟩) (.bind (.perform rfl) fun _ => ?_)
  refine .bind (.perform rfl) fun _ => .bind (.perform rfl) fun _ => ?_
  exact .bind (.perform rfl) fun o => .bind (fun _ _ => trivial) fun m => .perform rfl

/-- In it a window is opened, through the trampoline before the activity's method, in which the
trampoline holds the other method. -/
theorem opened_crossed : ∃ newer x older g, (crossed .classWide).host.2 = newer ++ x :: older ∧
    x.event = .opened g ∧ g.trampoline = ⟨2⟩ ∧
    (x.world.content ⟨2⟩).code = .native .overriding ∧
    older.head?.map (fun y => ((y.world.content ⟨2⟩).replaced?, (y.world.content ⟨1⟩).code)) =
      some (some ⟨1⟩, .native .declared) := by
  have hinside : ((crossed .classWide).host.2.drop 8).head?.map
      (fun x => (x.world.content ⟨2⟩).code) = some (.native .overriding) := by decide +kernel
  have hbefore : ((crossed .classWide).host.2.drop 8).tail.head?.map
      (fun y => ((y.world.content ⟨2⟩).replaced?, (y.world.content ⟨1⟩).code)) =
        some (some ⟨1⟩, .native .declared) := by decide +kernel
  have hopening : ((crossed .classWide).host.2.drop 8).head?.bind
      (fun x => x.opened?.map fun g => (g.trampoline, g.receiver)) = some (⟨2⟩, ⟨0⟩) := by
    decide +kernel
  obtain ⟨x, older, g, hdrop, hlog, hx, htramp, -⟩ := exists_opening hopening
  rw [hdrop] at hinside hbefore
  exact ⟨_, x, older, g, hlog, hx, htramp, Option.some.inj hinside, hbefore⟩

/-- The window shows the other method, which is not what the trampoline stands for. -/
theorem shown_crossed : ∃ (x y : Moment Role) (g : Guard Role) (o : CellRef),
    (y.world.content g.trampoline).replaced? = some o ∧
    (y.world.content o).code = .native .declared ∧
    ∃ d, d.code = .native .overriding ∧ ∀ d', Shows (crossed .classWide).host.2 x g.trampoline d' ↔
      d = d' := by
  obtain ⟨newer, x, older, g, hlog, hx, htramp, hcode, hbefore⟩ := opened_crossed
  obtain ⟨v, args, y, past, o, rfl, -, ho, hreplaces⟩ :=
    Reached.replaces (uses_recorder rfl rfl) ((checked_crossed .classWide).mono
      Op.IsChecked.isOrdinary) hlog hx
  obtain ⟨hreplaced, hdeclared⟩ := Prod.mk.inj (Option.some.inj hbefore)
  rw [htramp, hreplaced] at ho
  obtain rfl := Option.some.inj ho
  have hshown := (hreplaces.shows _).mpr rfl newer x _ hlog (within_opened hx _ _)
  rw [htramp] at hshown
  refine ⟨x, y, g, ⟨1⟩, ?_, hdeclared, _, ?_, hreplaces.shows⟩
  · rw [htramp, hreplaced]
  · rw [htramp, ← hshown, hcode]

/-- **A window installs another method.**  In a run that asks for nothing unchecked, on one machine,
the activity's trampoline is called on an instance of a class below that overrides the method and
is intercepted as well.  During the window the trampoline does not hold what it stood for when the
window was opened: the handler's call through runs the other method, where per-call windows let it
run the activity's. -/
theorem installed_crossed :
    (∀ mode, Reached recorder (fun op => op.IsChecked = true) (crossed mode) ∧
      (crossed mode).world.vms.size = 1 ∧ ((crossed mode).world.coreOf ⟨0⟩).mode = mode) ∧
    (∃ (newer older past : List (Moment Role)) (x y : Moment Role) (g : Guard Role) (v : VmRef)
      (args : List Value) (o : CellRef), (crossed .classWide).host.2 = newer ++ x :: older ∧
      x.event = .opened g ∧ older = y :: past ∧
      y.event = .entered v g.trampoline g.receiver args ∧
      (y.world.content g.trampoline).replaced? = some o ∧
      x.world.content g.trampoline ≠ y.world.content o) ∧
    (crossed .perCall).host.1 = [.declared, .forwards] ∧
    (crossed .classWide).host.1 = [.overriding, .forwards] := by
  refine ⟨fun mode => ⟨checked_crossed mode, ?_⟩, ?_, by decide +kernel, by decide +kernel⟩
  · cases mode <;> decide +kernel
  · obtain ⟨newer, x, older, g, hlog, hx, htramp, hcode, hbefore⟩ := opened_crossed
    have hspans := ((checked_crossed .classWide).mono Op.IsChecked.isOrdinary).spans
      (uses_recorder rfl rfl)
    obtain ⟨u, v, handler, args, past, rfl, -, -, -, -⟩ := hspans.opening hlog hx
    obtain ⟨hreplaced, hdeclared⟩ := Prod.mk.inj (Option.some.inj hbefore)
    refine ⟨newer, _, past, x, _, g, v, args, ⟨1⟩, hlog, hx, rfl, rfl, ?_, fun hsame => ?_⟩
    · rw [htramp]
      exact hreplaced
    · rw [htramp] at hsame
      rw [hsame, hdeclared] at hcode
      cases hcode

end Demo

end Interception
