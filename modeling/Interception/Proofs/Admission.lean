/-
When a call through is admitted.

A handler calls its method by handle, so the call is checked like any other: the caller must be
allowed to, and the receiver must be an instance of the class that declared what the cell holds at
that moment.  The first check always passes, for whoever is called as a handler is of a class
that some row names, and those are trusted.

The second is about what the window put in the cell.  Where windows are per call that is what the
receiver was called for.  Over the whole class it is found in a table, which belongs to a class
above the receiver's; its cells were declared above that class or are copies made for a class
above it.  A copy records an owner above the class it was made for as long as it holds what
patching put there.  But it may itself be lent at that moment to a window on some other receiver,
and then it records an owner that has nothing to do with this one.
-/
import Interception.Proofs.Replacements
import Interception.Proofs.Depths
import Interception.Proofs.Ownership

namespace Interception

variable {β H : Type}

namespace World

variable {w w' : World β} {v : VmRef} {this h : ObjectRef} {c : ClassRef} {m o : CellRef}

/-! ### Who declared what a table has -/

/-- Whatever a table has is owned above its class, if its copies are owned as they should be. -/
theorem Fits.derivesFrom {t : TableRef} {k : Nat} (ht : w.Fits c t) (hl : w.Lineages)
    (hk : (w.tables.get t)[k]? = some m) (hm : w.Copied m → w.OwnedAbove m) :
    w.derivesFrom c (w.content m).owner = true := by
  by_cases hcopied : w.Copied m
  · obtain ⟨g, i, r, j, hr, hj⟩ := hcopied
    obtain ⟨hmem, rfl⟩ := ht.copies hk hr hj
    exact hl.derivesFrom_of_mem hmem (hm ⟨g, i, r, j, hr, hj⟩ hr hj)
  · obtain ⟨name, hname⟩ := ht.named (List.getElem?_eq_some_iff.mp hk).1
    exact derivesFrom_declared (ht.plain hk hcopied hname)

/-- Where rows are not stacked a trampoline is owned as it should be. -/
theorem Faithful.ownedAbove (hf : w.Faithful) (hw : w.Sound) (hu : w.Unstacked)
    (hm : (w.content m).isTrampoline = true) : w.OwnedAbove m := by
  intro g i r k hr hk
  obtain ⟨name, hname⟩ := (hw.tabled.intercepted hr).named (List.getElem?_eq_some_iff.mp hk).1
  obtain ⟨o, ho⟩ := (hw.tabled.unpatched hr).exists_cell hname
  obtain ⟨-, hcontent⟩ := hf.of_isTrampoline hw hu hm hr hk ho
  rw [hcontent]
  exact (hw.tabled.unpatched hr).derivesFrom hw.lineages ho fun hcopied =>
    absurd hcopied (hw.not_copied_unpatched hu hr ho)

/-- A window shows its own trampoline, or a cell that the receiver's nearest row replaced. -/
theorem source_cases (w : World β) (v : VmRef) (this : ObjectRef) (m : CellRef) :
    w.source v this m = m ∨ ∃ (i : Nat) (r : Resolution) (k : Nat),
      w.interceptionOf (w.coreOf v).registry (w.classOf this) = some (i, r) ∧
      (w.tables.get r.unpatched)[k]? = some (w.source v this m) := by
  unfold source
  split
  · rename_i i r _ _ hr
    cases hcell : (w.tables.get r.unpatched)[(w.content m).slot]? with
    | none => exact Or.inl rfl
    | some o => exact Or.inr ⟨i, r, _, hr, hcell⟩
  · exact Or.inl rfl

/-- So is what a window shows, if it is a copy at all. -/
theorem Faithful.ownedAbove_source (hf : w.Faithful) (hw : w.Sound) (hu : w.Unstacked)
    (hm : (w.content m).isTrampoline = true) (hcopied : w.Copied (w.source v this m)) :
    w.OwnedAbove (w.source v this m) := by
  rcases w.source_cases v this m with hself | ⟨i, r, k, hr, hk⟩
  · rw [hself]
    exact hf.ownedAbove hw hu hm
  · obtain ⟨-, hres, -⟩ := interceptionOf_eq_some.mp hr
    exact absurd hcopied (hw.not_copied_unpatched hu hres hk)

/-! ### How trampolines are reached -/

/-- The receiver is an instance of what the cell's content was declared for, or has the cell in
its table. -/
def Reaches (w : World β) (m : CellRef) (this : ObjectRef) : Prop :=
  w.derivesFrom (w.classOf this) (w.content m).owner = true ∨
    ∃ k : Nat, w.methodAt (w.classOf this) k = some m

/-- On one machine, a trampoline that is called with a handler there is reached in this way. -/
def ReachesAlone (w : World β) (v : VmRef) (m : CellRef) (this : ObjectRef) : Prop :=
  w.vms.size ≤ 1 → w.vms.Live v → (w.content m).isTrampoline = true →
    (w.handlerOf v (w.coreOf v) this).isSome = true → w.Reaches m this

/-- What the receiver check says of an object that it turns away. -/
def notInstance (w : World β) (o : ObjectRef) (d : Descriptor β) : VmError :=
  .typeError s!"{w.className (w.classOf o)} is not an instance of {d.ownerName}"

theorem derivesFrom_of_checkReceiver {d : Descriptor β} (hd : w.checkReceiver this d = .ok ()) :
    w.derivesFrom (w.classOf this) d.owner = true := by
  by_contra hno
  rw [checkReceiver, if_neg hno] at hd
  cases hd

/-- A receiver with a handler is there. -/
theorem Sound.live_of_handlerOf (hw : w.Sound) (hh : w.handlerOf v (w.coreOf v) this = some h) :
    w.classes.Live (w.classOf this) := by
  obtain ⟨j, hj⟩ := field?_of_handlerOf hh
  exact hw.peopled.live (live_of_field? hj)

/-- The receiver's class derives from the owner that the window's cell shows. -/
def suits (w : World β) (v : VmRef) (this : ObjectRef) (m : CellRef) : Bool :=
  w.derivesFrom (w.classOf this) (w.content (w.source v this m)).owner

/-- It does if the cell shown is no copy, or owned as it should be. -/
theorem Reaches.suits (hreach : w.Reaches m this) (hw : w.Sound)
    (hc : w.classes.Live (w.classOf this))
    (howned : w.Copied (w.source v this m) → w.OwnedAbove (w.source v this m)) :
    w.suits v this m = true := by
  rcases w.source_cases v this m with hself | ⟨i, r, k, hr, hk⟩
  · rw [World.suits, hself]
    rw [hself] at howned
    rcases hreach with hderives | ⟨k, hk⟩
    · exact hderives
    · exact (hw.tabled.current _ hc).derivesFrom hw.lineages hk howned
  · obtain ⟨-, hres, hmem⟩ := interceptionOf_eq_some.mp hr
    exact hw.lineages.derivesFrom_of_mem hmem
      ((hw.tabled.unpatched hres).derivesFrom hw.lineages hk howned)

/-- Where there is one machine, a handler is trusted. -/
theorem Serves.checkAccess (hs : w.Serves h) (hw : w.Sound) (hone : w.vms.size ≤ 1)
    (hv : w.vms.Live v) (d : Descriptor β) :
    w.checkAccess v (some (w.classOf h)) d = .ok () := by
  obtain ⟨g, i, r, hr, hcls⟩ := hs
  obtain ⟨u, hu, hg, -⟩ := hw.filled.handler hr
  obtain rfl := eq_of_live_vms hone hu.live_vm hv
  have htrusted : w.isHandlerClass (w.coreOf u) (w.classOf h) = true := by
    rw [isHandlerClass, hg, hcls]
    exact hw.isHandlerClass hr
  simp only [World.checkAccess, htrusted, Bool.or_true, if_true]

end World

/-- Where the caller is allowed to, a call by handle is up to the receiver. -/
theorem invokeMethod_of_checkAccess {exec : Executor β H} {v : VmRef} {caller : Option ClassRef}
    {m : CellRef} {this : ObjectRef} {args : List Value} {s : State β H}
    (ha : s.world.checkAccess v caller (s.world.content m) = .ok ()) :
    invokeMethod exec v caller m this args s =
      if s.world.derivesFrom (s.world.classOf this) (s.world.content m).owner then
        exec v m this args s
      else
        (.error (s.world.notInstance this (s.world.content m)), s) := by
  cases hderives : s.world.derivesFrom (s.world.classOf this) (s.world.content m).owner with
  | true => simp only [invokeMethod, World.checkReceiver, hderives, ha, if_true]
  | false =>
    simp only [invokeMethod, World.checkReceiver, hderives]
    rfl

/-! ### Every run -/

/-- Checked runs reach trampolines in no other way. -/
theorem kept_reaches : Kept (β := β) (fun op => op.IsChecked = true) World.ReachesAlone
    (fun t => (t.world.Sound ∧ t.world.Directs) ∧
      (t.world.Sound ∧ (t.world.PerCall → t.world.Exact)))
    (fun t u => (t.world.Sound ∧ t.world.Tends u.world) ∧
      ((t.world.Sound ∧ t.world.Tends u.world) ∧ t.world.Preserves u.world)) := by
  have k := (kept_directs (β := β).both upheld_preserves.kept).restrict Op.IsChecked.isOrdinary
  exact
    { ordinary := k.ordinary
      refl := k.refl
      trans := k.trans
      note := k.note
      define := k.define
      allocate := k.allocate
      setField := k.setField
      frame := fun args ht _ hd => k.frame args ht ⟨trivial, trivial⟩ hd
      window := fun ht _ => k.window ht ⟨trivial, trivial⟩
      slot := fun _ hm _ _ _ _ => Or.inr ⟨_, hm⟩
      direct := fun _ ht hm _ _ htramp _ => by
        rw [ht.1.2.isTrampoline ht.1.1 hm] at htramp
        cases htramp
      method := fun _ _ hreceiver _ _ _ _ _ =>
        Or.inl (World.derivesFrom_of_checkReceiver hreceiver)
      execute := fun ha _ => by cases ha
      replaced := by
        intro t v m this o ht hmay ho hway hone hv htramp hhandler
        -- With a handler it only gives way in a window of its own, where calls are per call.
        rcases hway with ⟨hmode, -⟩ | hnone
        · have hpercall : t.world.PerCall := fun u hu => World.eq_of_live_vms hone hv hu ▸ hmode
          have he := ht.2.2 hpercall
          have hw := ht.1.1
          obtain ⟨h, hh⟩ := Option.isSome_iff_exists.mp hhandler
          have hcontent := hw.eq_toTrampoline he ho
          have hreach := hmay hone hv (Descriptor.isTrampoline_of_replaced? ho) hhandler
          have howner : (t.world.content m).owner = (t.world.content o).owner := by
            rw [hcontent]
            rfl
          refine Or.inl ?_
          rw [← howner]
          rcases hreach with hderives | ⟨k, hk⟩
          · exact hderives
          · exact (hw.tabled.current _ (hw.live_of_handlerOf hh)).derivesFrom hw.lineages hk
              fun _ => hw.ownedAbove he m
        · rw [hnone] at hhandler
          cases hhandler }

theorem Reached.reaches {host : Host β H} {s : State β (Logged β H)}
    (hb : ∀ b v this args, (host.body b v this args).Uses fun op => op.IsChecked = true)
    (hs : Reached host (fun op => op.IsChecked = true) s) :
    s.trail.Always fun t => t.world.Sound ∧ t.Begun World.ReachesAlone fun t =>
      (t.world.Sound ∧ t.world.Directs) ∧ (t.world.Sound ∧ (t.world.PerCall → t.world.Exact)) := by
  have always := Reached.always kept_reaches hb ?_ ?_ ?_ hs
  · exact always.imp fun h => ⟨h.1.1.1, h.2⟩
  · exact ⟨⟨.empty, .empty⟩, .empty, fun _ => .empty⟩
  · intro t rows ht
    have hw := ht.1.1.newRegistry rows
    exact ⟨⟨hw, ht.1.2.newRegistry ht.1.1 rows⟩, hw,
      (upheld_preserves.registry rows ht.1.1 ht.2.2).1⟩
  · intro t options core _ ht
    have hw := ht.1.1.newVmAround options core
    exact ⟨⟨hw, ht.1.2.newVmAround ht.1.1 options core⟩, hw,
      (upheld_preserves.machine options core ht.1.1 ht.2.2).1⟩

/-- How a window that was opened in this world treats calls through by its handler.  The handler
may call anything.  While no window inside it was opened through the cell, the call runs the cell
if the receiver's class derives from the owner the window shows, and is refused if it does not.
It does where windows are per call, where rows are not stacked, where no copy is shown, and where
no body defines a class and what is shown was not lent. -/
structure Admits (host : Host β H) (log : List (Moment β)) (x : Moment β)
    (older : List (Moment β)) (w : World β) (v : VmRef) (this h : ObjectRef) (m : CellRef) :
    Prop where
  access : ∀ later z between, log = later ++ z :: between → x ∈ openings (z :: between) →
    ∀ d, z.world.checkAccess v (some (z.world.classOf h)) d = .ok ()
  call : ∀ later z between, log = later ++ z :: between → Within x m (z :: between) →
    ∀ (exec : Executor β (Logged β H)) args k,
      invokeMethod exec v (some (z.world.classOf h)) m this args ⟨z.world, z.thread, k⟩ =
        if w.suits v this m then exec v m this args ⟨z.world, z.thread, k⟩
        else (.error (z.world.notInstance this (z.world.content m)), ⟨z.world, z.thread, k⟩)
  perCall : (w.coreOf v).mode = .perCall → w.suits v this m = true
  unstacked : w.Unstacked → w.suits v this m = true
  original : ¬ w.Copied (w.source v this m) → w.suits v this m = true
  unlent : (∀ b v this args, (host.body b v this args).Uses fun op => op.KeepsClasses = true) →
    ¬ Lent older (w.source v this m) → w.suits v this m = true

section Reached

variable {host : Host β H} {s : State β (Logged β H)} {newer older : List (Moment β)}
  {x : Moment β} {g : Guard β}

/-- **When a call through is admitted.**  On one machine, in a run that runs no cell unchecked and
writes no field by hand, the handler of any window passes the access check throughout; and while
no window inside is open, or none through the same cell, its call through is refused in no other
case than that the receiver's class does not derive from the owner the window shows. -/
theorem Reached.admits
    (hb : ∀ b v this args, (host.body b v this args).Uses
      fun op => op.IsChecked = true ∧ op.KeepsFields = true)
    (hs : Reached host (fun op => op.IsChecked = true ∧ op.KeepsFields = true) s)
    (hone : s.world.vms.size ≤ 1) (hlog : s.host.2 = newer ++ x :: older)
    (hx : x.event = .opened g) :
    ∃ v args y past h, older = y :: past ∧
      y.event = .entered v g.trampoline g.receiver args ∧
      y.world.handlerOf v (y.world.coreOf v) g.receiver = some h ∧
      Admits host s.host.2 x older y.world v g.receiver h g.trampoline := by
  have hbc := fun b v this args => (hb b v this args).mono And.left
  have hbo := fun b v this args => (hbc b v this args).mono Op.IsChecked.isOrdinary
  have hsc := hs.mono And.left
  have hso := hsc.mono Op.IsChecked.isOrdinary
  have hspans := hso.spans hbo
  have hstaffed := upheld_staffed.ordered (fun b v this args => (hb b v this args).mono And.right)
    (hs.mono And.right)
  -- Whatever was seen led to the present.
  have hseen : ∀ {z}, z ∈ s.trail.log → z.world.Sound ∧ z.world.Staffed ∧ z.world.vms.size ≤ 1 :=
    fun {z} hz => by
      have hmem := List.mem_map_of_mem (f := Moment.world) hz
      obtain ⟨hsound, hstaff⟩ := hstaffed.each _ (List.mem_cons_of_mem _ hmem)
      have hlater := List.rel_of_pairwise_cons hstaffed.ordered hmem
      exact ⟨hsound, hstaff, hlater.1.2.grows.alone hone⟩
  obtain ⟨u, v, h, args, past, rfl, hlogu, hopens, hmay, ⟨hw, -⟩, -, hexact⟩ :=
    (hsc.reaches hbc).opening hlog hx
  refine ⟨v, args, _, past, h, rfl, rfl, hopens.handled, ?_⟩
  have hmemu : ⟨.entered v g.trampoline g.receiver args, u.world, u.thread⟩ ∈ s.trail.log :=
    hlogu ▸ List.mem_append_right _ List.mem_cons_self
  obtain ⟨-, hstaff, honeu⟩ := hseen hmemu
  have hv : u.world.vms.Live v := (hsc.swapping hbc).manned _ hmemu rfl
  obtain ⟨hlive, hshown⟩ := hopens.shown hw.tabled
  have hreaches := hmay honeu hv hopens.trampoline
    (Option.isSome_iff_exists.mpr ⟨h, hopens.handled⟩)
  have hclass := hw.live_of_handlerOf hopens.handled
  obtain ⟨j, hj⟩ := World.field?_of_handlerOf hopens.handled
  have hhandler := hstaff.owned.live hj
  have hthis := World.live_of_field? hj
  have haccess : ∀ later z between, s.host.2 = later ++ z :: between → x ∈ openings (z :: between) →
      ∀ d, z.world.checkAccess v (some (z.world.classOf h)) d = .ok () := by
    intro later z between hz hmem d
    have hgrows := hspans.grows_inside hopens hz hmem
    have hmemz : z ∈ s.trail.log := by
      show z ∈ s.host.2
      rw [hz]
      exact List.mem_append_right _ List.mem_cons_self
    obtain ⟨hwz, -, honez⟩ := hseen hmemz
    exact ((hstaff.serves hj).of_grows hgrows hhandler).checkAccess hwz honez
      (hgrows.vms v hv).1 d
  exact
    { access := haccess
      call := fun later z between hz hin exec args k => by
        have hgrows := hspans.grows_inside hopens hz hin.mem
        have hcontent : z.world.content g.trampoline =
            u.world.content (u.world.source v g.receiver g.trampoline) :=
          (hspans.content_within hz hin hlive).trans hshown
        have hreceiver : z.world.derivesFrom (z.world.classOf g.receiver)
            (z.world.content g.trampoline).owner = u.world.suits v g.receiver g.trampoline := by
          rw [(hgrows.objects _ hthis).2.1, hcontent]
          exact hgrows.derivesFrom hw.lineages hclass _
        rw [← hreceiver]
        exact invokeMethod_of_checkAccess
          (haccess later z between hz hin.mem (z.world.content g.trampoline))
      perCall := fun hmode => by
        have hpercall : u.world.PerCall := fun a ha => World.eq_of_live_vms honeu hv ha ▸ hmode
        exact hreaches.suits hw hclass fun _ => hw.ownedAbove (hexact hpercall) _
      unstacked := fun hu => by
        have hat : s.trail.At u.world u.thread := Or.inr ⟨_, hmemu, rfl, rfl⟩
        have hfaithful := (hso.faithful hbo hat).2 hu
        exact hreaches.suits hw hclass (hfaithful.ownedAbove_source hw hu hopens.trampoline)
      original := fun hplain => hreaches.suits hw hclass fun hcopied => absurd hcopied hplain
      unlent := fun hkeeps hlent => by
        obtain ⟨-, hintact⟩ := Reached.ownedAbove hkeeps hso _ _ _ hlogu
        exact hreaches.suits hw hclass fun hcopied => hintact _ hcopied hlent }

end Reached

namespace Demo

def relayName : String := "App.Relay"

def siblingName : String := "App.SiblingActivity"

/-- The method intercepted in the activity and in two classes below it, in one of which the handler
calls the method of another instance. -/
def siblingRows : List Row :=
  [⟨activityName, [methodName], handlerName⟩, ⟨subactivityName, [methodName], handlerName⟩,
    ⟨siblingName, [methodName], relayName⟩]

/-- Define the activity, a class below it that inherits the method, and one that overrides it;
then call the activity's by its handle on an instance of the latter, which has its handler call an
instance of the former. -/
def relaying (v : VmRef) : Program Role (List Role) Value := do
  let _ ← Program.perform (.define v (handlerDeclOf handlerName .forwards))
  let _ ← Program.perform (.define v (handlerDeclOf relayName .relays))
  let c ← Program.perform (.define v (resumable activityName none .declared))
  let d ← Program.perform (.define v { name := subactivityName, extends? := some activityName })
  let e ← Program.perform (.define v (resumable siblingName (some activityName) .overriding))
  let o ← Program.perform (.allocate v d)
  let p ← Program.perform (.allocate v e)
  let m ← Program.look fun w => (w.methodAt c 0).getD default
  Program.perform (.callMethod v none m p [.object o])

/-- The state before that. -/
def unrelayed (mode : SwapMode) : State Role (Logged Role (List Role)) :=
  ⟨(World.newVm {} { rows := siblingRows, mode, maxDepth := 32 }).2, {}, ([], [])⟩

/-- The state after that. -/
def relayed (mode : SwapMode) : State Role (Logged Role (List Role)) :=
  ((relaying ⟨0⟩).lift.start recorder.logged (unrelayed mode)).2

theorem reached_relayed {allowed : Op Role → Prop} (hdefine : ∀ {v d}, allowed (.define v d))
    (hallocate : ∀ {v c}, allowed (.allocate v c))
    (hmethod : ∀ {v caller m this args}, allowed (.callMethod v caller m this args))
    (mode : SwapMode) : Reached recorder allowed (relayed mode) := by
  have hmachine : Reached recorder allowed (unrelayed mode) :=
    .newVm ([] : List Role) { rows := siblingRows, mode, maxDepth := 32 }
  refine hmachine.run (relaying ⟨0⟩) (.bind (.perform hdefine) fun _ => ?_)
  refine .bind (.perform hdefine) fun _ => .bind (.perform hdefine) fun c => ?_
  refine .bind (.perform hdefine) fun d => .bind (.perform hdefine) fun e => ?_
  refine .bind (.perform hallocate) fun o => .bind (.perform hallocate) fun p => ?_
  exact .bind (fun _ _ => trivial) fun m => .perform hmethod

/-- What becomes of a call through in the window that was opened so many events ago. -/
def ComesOut (n : Nat) (m : CellRef) (o : ObjectRef) (admitted : Bool) : Prop :=
  ∃ x older h, (relayed .classWide).host.2.drop n = x :: older ∧
    (∀ d, x.world.checkAccess ⟨0⟩ (some (x.world.classOf h)) d = .ok ()) ∧
    ∀ (exec : Executor Role (Logged Role (List Role))) args k,
      invokeMethod exec ⟨0⟩ (some (x.world.classOf h)) m o args ⟨x.world, x.thread, k⟩ =
        if admitted then exec ⟨0⟩ m o args ⟨x.world, x.thread, k⟩
        else (.error (x.world.notInstance o (x.world.content m)), ⟨x.world, x.thread, k⟩)

/-- In the window on the activity's trampoline, which shows the overriding method, the call
through is admitted.  In the one inside it, on the trampoline of the class that inherits the method,
it is refused: what this window shows is what the other left there. -/
theorem admits_relayed : ComesOut 13 ⟨3⟩ ⟨2⟩ true ∧ ComesOut 10 ⟨4⟩ ⟨0⟩ false := by
  have comes : ∀ {n m o admitted},
      ((relayed .classWide).host.2.drop n).head?.bind
        (fun x => x.opened?.map fun g => (g.trampoline, g.receiver)) = some (m, o) →
      ((relayed .classWide).host.2.drop n).tail.head?.map (fun y =>
        (y.event.admittedBy?, y.world.suits ⟨0⟩ o m)) = some (some ⟨0⟩, admitted) →
      ComesOut n m o admitted := fun {n m o admitted} hopening hbefore => by
    obtain ⟨x, older, g, hdrop, hlog, hx, rfl, rfl⟩ := exists_opening hopening
    rw [hdrop] at hbefore
    obtain ⟨v, args, y, past, h, rfl, hentered, -, hadmits⟩ :=
      Reached.admits (uses_recorder ⟨rfl, rfl⟩ ⟨rfl, rfl⟩)
        (reached_relayed ⟨rfl, rfl⟩ ⟨rfl, rfl⟩ ⟨rfl, rfl⟩ .classWide) (by decide +kernel) hlog hx
    obtain ⟨hv, hsuits⟩ := Prod.mk.inj (Option.some.inj hbefore)
    rw [hentered] at hv
    obtain rfl := Option.some.inj hv
    have hin := within_opened hx g.trampoline (y :: past)
    refine ⟨x, _, h, hdrop, hadmits.access _ x _ hlog hin.mem, fun exec args k => ?_⟩
    rw [hadmits.call _ x _ hlog hin exec args k, hsuits]
  exact ⟨comes (by decide +kernel) (by decide +kernel),
    comes (by decide +kernel) (by decide +kernel)⟩

/-- **The call through is refused.**  In a run that asks for nothing unchecked and writes no field,
on one machine, an instance is called whose handler allocation bound; right after the opening of
its window, with none inside it, a call through by that handler is turned away with the error that
the receiver is not an instance of another class below the activity, and so the whole run ends,
where per-call windows let it reach the method. -/
theorem refused_relayed :
    (∀ mode, Reached recorder (fun op => op.IsChecked = true ∧ op.KeepsFields = true)
        (relayed mode) ∧
      (relayed mode).world.vms.size = 1 ∧ ((relayed mode).world.coreOf ⟨0⟩).mode = mode) ∧
    (∃ newer x y past g h, (relayed .classWide).host.2 = newer ++ x :: y :: past ∧
      x.event = .opened g ∧
      y.world.handlerOf ⟨0⟩ (y.world.coreOf ⟨0⟩) g.receiver = some h ∧
      (y.world.interceptionOf (y.world.coreOf ⟨0⟩).registry (y.world.classOf g.receiver)).map
        (fun p => p.2.handlerClass) = some (y.world.classOf h) ∧
      (openings (x :: y :: past)).head? = some x ∧
      ∀ (exec : Executor Role (Logged Role (List Role))) args k,
        invokeMethod exec ⟨0⟩ (some (x.world.classOf h)) g.trampoline g.receiver args
            ⟨x.world, x.thread, k⟩ =
          (.error (.typeError s!"{subactivityName} is not an instance of {siblingName}"),
            ⟨x.world, x.thread, k⟩)) ∧
    ((relaying ⟨0⟩).lift.start recorder.logged (unrelayed .classWide)).1 =
      .error (.typeError s!"{subactivityName} is not an instance of {siblingName}") ∧
    (relayed .classWide).host.1 = [.forwards, .relays] ∧
    (relayed .perCall).host.1 = [.declared, .forwards, .forwards, .relays] := by
  -- Whether two values are the same is not decided, but it is not asked here.
  have hend : (((relaying ⟨0⟩).lift.start recorder.logged (unrelayed .classWide)).1.map
      fun _ => ()) =
        .error (.typeError s!"{subactivityName} is not an instance of {siblingName}") := by
    decide +kernel
  have hopening : ((relayed .classWide).host.2.drop 10).head?.bind
      (fun x => x.opened?.map fun g => (g.trampoline, g.receiver)) = some (⟨4⟩, ⟨0⟩) := by
    decide +kernel
  have hinside : ((relayed .classWide).host.2.drop 10).head?.map (fun x =>
      (x.world.derivesFrom (x.world.classOf ⟨0⟩) (x.world.content ⟨4⟩).owner,
        x.world.className (x.world.classOf ⟨0⟩), (x.world.content ⟨4⟩).ownerName)) =
      some (false, subactivityName, siblingName) := by decide +kernel
  have hbefore : ((relayed .classWide).host.2.drop 10).tail.head?.map (fun y =>
      (y.world.handlerOf ⟨0⟩ (y.world.coreOf ⟨0⟩) ⟨0⟩,
        decide ((y.world.interceptionOf (y.world.coreOf ⟨0⟩).registry (y.world.classOf ⟨0⟩)).map
          (fun p => p.2.handlerClass) = some (y.world.classOf ⟨1⟩)))) =
      some (some ⟨1⟩, true) := by decide +kernel
  refine ⟨fun mode => ⟨reached_relayed ⟨rfl, rfl⟩ ⟨rfl, rfl⟩ ⟨rfl, rfl⟩ mode, ?_⟩, ?_,
    Ending.map_eq_error.mp hend, by decide +kernel, by decide +kernel⟩
  · cases mode <;> decide +kernel
  · obtain ⟨x, older, g, hdrop, hlog, hx, htramp, hthis⟩ := exists_opening hopening
    rw [hdrop] at hinside hbefore
    cases older with
    | nil => cases hbefore
    | cons y past =>
      obtain ⟨hderives, hnames⟩ := Prod.mk.inj (Option.some.inj hinside)
      obtain ⟨hclass, howner⟩ := Prod.mk.inj hnames
      obtain ⟨hhandler, hbound⟩ := Prod.mk.inj (Option.some.inj hbefore)
      refine ⟨_, x, y, past, g, ⟨1⟩, hlog, hx, ?_, ?_, ?_, fun exec args k => ?_⟩
      · rw [hthis]
        exact hhandler
      · rw [hthis]
        exact of_decide_eq_true hbound
      · rw [openings, hx]
        rfl
      · rw [htramp, hthis]
        simp only [invokeMethod, World.checkReceiver, hderives, hclass, howner]
        rfl

end Demo

end Interception
