/-
Direct methods.

The cells of the direct methods a class declares are made with the class and are in no
table.  Patching copies tables only and windows write into copies only, so such a cell holds
what was declared for as long as the class is there, and it never is a trampoline.
-/
import Interception.Proofs.Originals

namespace Interception

variable {β H : Type}

namespace World

variable {w w' : World β} {v : VmRef} {c : ClassRef}

/-- The cells made for direct methods are new, and name the class they are for. -/
theorem mem_declareDirects {number : Nat} {owner : String} {m : CellRef}
    (ds : List (MethodDecl β)) :
    ∀ (i : Nat) (cells : Store .cell (Descriptor β)),
      m ∈ (declareDirects number owner i ds cells).1 →
      (declareDirects number owner i ds cells).2.Live m ∧ ¬ cells.Live m ∧
        ((declareDirects number owner i ds cells).2.get m).owner = number ∧
        ((declareDirects number owner i ds cells).2.get m).ownerName = owner := by
  induction ds with
  | nil =>
    intro i cells hm
    cases hm
  | cons d rest ih =>
    intro i cells hm
    let made : Descriptor β :=
      { name := d.name, owner := number, ownerName := owner, slot := i
        visibility := d.visibility, code := .native d.body }
    have hrest := keeps_declareDirects number owner rest (i + 1) (cells.add made)
    rcases List.mem_cons.mp hm with rfl | hm
    · obtain ⟨hlive, hget⟩ := hrest _ (Store.live_next_add cells made)
      rw [Store.get_add_next] at hget
      refine ⟨hlive, cells.not_live_next, ?_, ?_⟩
      · exact congrArg Descriptor.owner hget
      · exact congrArg Descriptor.ownerName hget
    · obtain ⟨hlive, hnew, howner⟩ := ih (i + 1) (cells.add made) hm
      exact ⟨hlive, fun hold => hnew (hold.add made), howner⟩

/-- The cells of direct methods are no copies, and hold what their class declares. -/
structure Directs (w : World β) : Prop where
  live : ∀ {a m}, m ∈ (w.classes.get a).directs → w.cells.Live m
  plain : ∀ {a m}, m ∈ (w.classes.get a).directs → ¬ w.Copied m
  owner : ∀ {a m}, m ∈ (w.classes.get a).directs →
    (w.content m).owner = (w.classes.get a).number ∧ (w.content m).ownerName = w.className a

namespace Directs

theorem empty : ({} : World β).Directs where
  live h := by cases h
  plain h := by cases h
  owner h := by cases h

theorem of_tends (h : w.Directs) (ht : w.Tabled) (hw : w.Tends w') (hs : w.SameClasses w') :
    w'.Directs := by
  have hback : ∀ {a m}, m ∈ (w'.classes.get a).directs → m ∈ (w.classes.get a).directs :=
    fun {a m} hm => by
      rw [(hs.alike a).directs] at hm
      exact hm
  refine ⟨fun hm => ?_, fun hm => ?_, fun {a m} hm => ?_⟩
  · exact hw.grows.cells _ (h.live (hback hm))
  · exact hw.not_copied ht (h.live (hback hm)) (h.plain (hback hm))
  · rw [hw.plain m (h.live (hback hm)) (h.plain (hback hm)), (hs.alike a).number, hs.className]
    exact h.owner (hback hm)

theorem link (h : w.Directs) (ht : w.Tabled) (d : ClassDecl β) (number : Nat)
    (super? : Option ClassRef) : (w.link d number super?).2.Directs := by
  have hext := extends_link 0 w d number super?
  have htends : w.Tends (w.link d number super?).2 := tends_of_extends hext fun hr => hr
  have hnew := get_link_next w d number super?
  have hdirects : ((w.link d number super?).2.classes.get w.classes.next).directs =
      (declareDirects number d.name 0 d.directs (w.laidOut d number super?).cells).1 := by
    cases super? with
    | none => exact congrArg Class.directs (Store.get_add_next _ _)
    | some s => exact congrArg Class.directs (Store.get_add_next _ _)
  have hcells : (w.link d number super?).2.cells =
      (declareDirects number d.name 0 d.directs (w.laidOut d number super?).cells).2 := by
    cases super? with
    | none => rfl
    | some s => rfl
  have hstart : w.cells.Keeps (w.laidOut d number super?).cells := by
    cases super? with
    | none => exact keeps_declareAll number d.name d.virtuals ⟨w.cells, [], []⟩
    | some s => exact keeps_declareAll number d.name d.virtuals (w.inherited (some s))
  have hold : ∀ {a}, a ≠ w.classes.next →
      (w.link d number super?).2.classes.get a = w.classes.get a := fun ha =>
    get_link_of_ne w d number super? ha
  -- A copy was there before the class was.
  have hcopied : ∀ {m}, (w.link d number super?).2.Copied m → w.cells.Live m := by
    rintro m ⟨g, i, r, k, hr, hk⟩
    have hr' : w.Resolves g i r := hr
    rw [hext.grows.table_intercepted ht hr'] at hk
    exact ((ht.intercepted hr').cells hk).1
  refine ⟨fun {a m} hm => ?_, fun {a m} hm => ?_, fun {a m} hm => ?_⟩
  · by_cases ha : a = w.classes.next
    · rw [ha, hdirects] at hm
      rw [hcells]
      exact (mem_declareDirects d.directs 0 _ hm).1
    · rw [hold ha] at hm
      exact hext.grows.cells m (h.live hm)
  · by_cases ha : a = w.classes.next
    · rw [ha, hdirects] at hm
      have hfresh := (mem_declareDirects d.directs 0 _ hm).2.1
      exact fun hcopy => hfresh (hstart m (hcopied hcopy)).1
    · rw [hold ha] at hm
      exact htends.not_copied ht (h.live hm) (h.plain hm)
  · by_cases ha : a = w.classes.next
    · rw [ha, hdirects] at hm
      rw [ha, content, hcells, hnew.position, className, hnew.name]
      exact (mem_declareDirects d.directs 0 _ hm).2.2
    · rw [hold ha] at hm
      rw [hext.content (h.live hm), hold ha, className, hold ha]
      exact h.owner hm

theorem enroll (h : w.Directs) (ht : w.Tabled) (hl : w.Lineages) (ho : w.Orderly)
    (hn : w.Newcomer v c) : (w.enroll v c).Directs :=
  h.of_tends ht (ht.enroll hl ho hn).2 (sameClasses_enroll w v c)

theorem define (h : w.Directs) (hw : w.Sound) {d : ClassDecl β} (hd : w.define v d = .ok (c, w')) :
    w'.Directs :=
  hw.define_induct hd (fun {s} _ => h.link hw.tabled d _ (some s))
    fun ho hl ht hn hx => hx.enroll ht hl ho hn

theorem newRegistry (h : w.Directs) (hw : w.Sound) (rows : List Row) :
    (w.newRegistry rows).2.Directs :=
  h.of_tends hw.tabled (tends_of_extends (extends_newRegistry 0 w rows) resolves_newRegistry)
    (.of_grows (extends_newRegistry 0 w rows).grows rfl)

theorem bareMachine (h : w.Directs) (hw : w.Sound) (options : VmOptions) (core : Core) :
    (w.bareMachine options core).Directs := by
  have hroot : w.rootLinked.Directs := h.link hw.tabled _ 0 none
  have hrootTabled : w.rootLinked.Tabled :=
    hw.tabled.link hw.lineages hw.orderly _ 0 (fun s hs => by cases hs) (ordered_nothing w.cells)
  have hproxy := hroot.link hrootTabled
    { name := proxyClassName, fields := [⟨handlerFieldName, handlerFieldType⟩] } 1
    (some w.classes.next)
  exact ⟨hproxy.live, hproxy.plain, hproxy.owner⟩

theorem newVmAround (h : w.Directs) (hw : w.Sound) (options : VmOptions) (core : Core) :
    (w.newVmAround options core).2.Directs :=
  hw.newVmAround_keeps options core (h.bareMachine hw options core)
    fun ho hl ht hn hx => hx.enroll ht hl ho hn

end Directs

/-- What a name refers to among direct methods is the cell of one. -/
theorem mem_of_directMethod {name : String} {m : CellRef} (h : w.directMethod c name = some m) :
    ∃ a ∈ w.lineage c, m ∈ (w.classes.get a).directs := by
  obtain ⟨a, ha, hm⟩ := List.exists_of_findSome?_eq_some h
  exact ⟨a, ha, List.mem_of_find?_eq_some hm⟩

/-- A direct method is no trampoline. -/
theorem Directs.isTrampoline (h : w.Directs) (hw : w.Sound) {name : String} {m : CellRef}
    (hm : w.directMethod c name = some m) : (w.content m).isTrampoline = false := by
  obtain ⟨a, -, hmem⟩ := mem_of_directMethod hm
  cases htramp : (w.content m).isTrampoline with
  | false => rfl
  | true => exact absurd (hw.tabled.copied htramp) (h.plain hmem)

end World

/-! ### Every moment -/

/-- Ordinary runs keep direct methods what they were declared as. -/
theorem upheld_directs : Upheld (β := β) (fun op => op.IsOrdinary = true) World.Directs
    (fun _ _ => True) where
  ordinary h := h
  start := .empty
  refl := trivial
  trans _ _ _ _ _ _ := trivial
  registry rows hw h := ⟨h.newRegistry hw rows, trivial⟩
  machine options core hw h := ⟨h.newVmAround hw options core, trivial⟩
  define hw h hd := ⟨h.define hw hd, trivial⟩
  objects hw h hstep := by
    have honly := hstep.onlyObjects
    exact ⟨h.of_tends hw.tabled honly.turns.tends honly.sameClasses, trivial⟩
  opening {w th v this m _} hw h hm _ := by
    have hshift := World.shifts_openWindow w th v (w.coreOf v) this m
    exact ⟨h.of_tends hw.tabled (hw.turns_openWindow hm).tends hshift.sameClasses, trivial⟩
  closing {w x th v this m _ u} hw _ hm _ hx h htends _ := by
    have hshift := World.shifts_closeWindow x u (w.openWindow th v (w.coreOf v) this m).1
    exact ⟨h.of_tends hx.tabled (hw.turns_closeWindow hm hx htends.grows u).tends
      hshift.sameClasses, trivial⟩

theorem kept_directs : Kept (β := β) (fun op => op.IsOrdinary = true) (fun _ _ _ _ => True)
    (fun t => t.world.Sound ∧ t.world.Directs)
    (fun t u => t.world.Sound ∧ t.world.Tends u.world) :=
  upheld_directs.keeps

/-- At every moment of a run of ordinary bodies direct methods hold what was declared. -/
theorem Reached.directs {host : Host β H} {s : State β (Logged β H)}
    (hb : ∀ b v this args, (host.body b v this args).Uses fun op => op.IsOrdinary = true)
    (hs : Reached host (fun op => op.IsOrdinary = true) s) {w : World β} {th : Thread}
    (hat : s.trail.At w th) : w.Sound ∧ w.Directs :=
  upheld_directs.everywhere hb hs hat

end Interception
