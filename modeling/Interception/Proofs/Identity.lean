/-
Which class a number means.

The checks of a reflective call compare numbers along a lineage.  Every machine numbers its
classes from zero, so on one machine a number is one class and the checks are about classes.
Between machines they are not: a handle of one machine is good for an instance of another
whose class happens to have the number of the class that declared the method, and that class
itself may then call what only the declaring class may.
-/
import Interception.Proofs.Directs
import Interception.Proofs.Dispatching

namespace Interception

variable {β H : Type}

namespace World

variable {w : World β} {u v : VmRef} {a b c : ClassRef} {m : CellRef}

/-! ### Numbers -/

/-- On one machine a number is one class. -/
theorem Homes.eq_of_number (h : w.Homes) (ha : w.Registered u a) (hb : w.Registered u b)
    (hn : (w.classes.get a).number = (w.classes.get b).number) : a = b := by
  obtain ⟨i, hi⟩ := Array.mem_iff_getElem?.mp ha
  obtain ⟨j, hj⟩ := Array.mem_iff_getElem?.mp hb
  rw [h.numbered hi, h.numbered hj] at hn
  subst hn
  rw [hi] at hj
  exact Option.some.inj hj

/-- So a class derives from a number if it derives from the class of that number. -/
theorem Homes.derivesFrom_iff (h : w.Homes) (hc : w.Registered u c) (ha : w.Registered u a) :
    w.derivesFrom c (w.classes.get a).number = true ↔ a ∈ w.lineage c := by
  rw [derivesFrom, List.any_eq_true]
  constructor
  · rintro ⟨b, hb, hn⟩
    rw [← h.eq_of_number (h.upward hc hb) ha (beq_iff_eq.mp hn)]
    exact hb
  · intro hmem
    exact ⟨a, hmem, beq_self_eq_true _⟩

/-! ### The class that declared a method -/

/-- What a handle references now was declared by this class, which is published on this
machine. -/
structure DeclaredBy (w : World β) (u : VmRef) (a : ClassRef) (m : CellRef) : Prop where
  registered : w.Registered u a
  number : (w.content m).owner = (w.classes.get a).number
  name : (w.content m).ownerName = w.className a

/-- Whatever handle is taken from a class where copies are exact, a class of the lineage
declared it. -/
theorem Sound.declaredBy (hw : w.Sound) (hd : w.Directs) (he : w.Exact)
    (hc : w.Registered u c) (hm : m ∈ w.tableOf c ∨ m ∈ (w.classes.get c).directs) :
    ∃ a ∈ w.lineage c, w.DeclaredBy u a m := by
  rcases hm with hm | hm
  · obtain ⟨k, hk⟩ := List.mem_iff_getElem?.mp hm
    have hlive := hw.homes.live hc
    obtain ⟨name, hname⟩ :=
      (hw.tabled.current c hlive).named (List.getElem?_eq_some_iff.mp hk).1
    obtain ⟨n, o, hends, ho⟩ := hw.endsAt he hlive hname hk
    rw [declared?, Option.map_eq_some_iff] at ho
    obtain ⟨⟨a, d⟩, hd, ho⟩ := ho
    have hmem := (declaration?_eq_some hd).1
    have hcontent := hends.content hw he
    rw [← ho] at hcontent
    refine ⟨a, hmem, hw.homes.upward hc hmem, ?_, ?_⟩
    · rw [hcontent]
      rfl
    · rw [hcontent]
      rfl
  · obtain ⟨hnumber, hname⟩ := hd.owner hm
    exact ⟨c, w.mem_lineage_self c, hc, hnumber, hname⟩

/-- The caller may call a method of this class: no caller is named, or it is trusted as a
handler class, or the method is visible to it. -/
def Permits (w : World β) (v : VmRef) (caller : Option ClassRef) (a : ClassRef) (m : CellRef) :
    Prop :=
  ∀ c, caller = some c → w.isHandlerClass (w.coreOf v) c = true ∨
    match (w.content m).visibility with
    | .everyone => True
    | .derived => a ∈ w.lineage c
    | .declaring => c = a

/-- What is for the declaring class alone, no other class may call unless it is trusted. -/
theorem not_permits_declaring (hm : (w.content m).visibility = .declaring)
    (htrusted : w.isHandlerClass (w.coreOf v) c = false) (hne : c ≠ a) :
    ¬ w.Permits v (some c) a m := by
  intro hpermits
  have hwhy := hpermits c rfl
  rw [hm, htrusted] at hwhy
  rcases hwhy with hno | hsame
  · cases hno
  · exact hne hsame

/-- On one machine visibility goes by the class itself. -/
theorem DeclaredBy.isVisibleTo (hm : w.DeclaredBy u a m) (h : w.Homes) (hc : w.Registered u c) :
    w.isVisibleTo (w.content m) c = true ↔
      match (w.content m).visibility with
      | .everyone => True
      | .derived => a ∈ w.lineage c
      | .declaring => c = a := by
  unfold World.isVisibleTo
  cases (w.content m).visibility with
  | everyone => simp
  | derived =>
    simp only
    rw [hm.number, h.derivesFrom_iff hc hm.registered]
  | declaring =>
    simp only
    rw [hm.number, beq_iff_eq]
    constructor
    · exact fun hn => h.eq_of_number hc hm.registered hn
    · rintro rfl
      rfl

theorem DeclaredBy.checkAccess (hm : w.DeclaredBy u a m) (h : w.Homes)
    {caller : Option ClassRef} (hc : ∀ c, caller = some c → w.Registered u c) :
    (w.Permits v caller a m → w.checkAccess v caller (w.content m) = .ok ()) ∧
    (¬ w.Permits v caller a m → ∃ c, caller = some c ∧
      w.checkAccess v caller (w.content m) =
        .error (.illegalAccess (w.className c) (w.className a) (w.content m).name)) := by
  cases caller with
  | none => exact ⟨fun _ => rfl, fun hno => absurd (fun c hc => by cases hc) hno⟩
  | some c =>
    have hvisible := hm.isVisibleTo h (hc c rfl)
    have hpermits : w.Permits v (some c) a m ↔
        (w.isVisibleTo (w.content m) c || w.isHandlerClass (w.coreOf v) c) = true := by
      rw [Bool.or_eq_true, hvisible, or_comm]
      constructor
      · exact fun hp => hp c rfl
      · intro hp c' hc'
        cases hc'
        exact hp
    rw [hpermits]
    constructor
    · intro hp
      simp only [World.checkAccess, hp, if_true]
    · intro hp
      refine ⟨c, rfl, ?_⟩
      simp only [World.checkAccess, if_neg hp, hm.name]

end World

section Calls

variable {exec : Executor β H} {s : State β H} {u v : VmRef} {a : ClassRef} {m : CellRef}
  {this : ObjectRef} {caller : Option ClassRef}

/-- What a reflective call does where receiver and caller are from the machine of the class
that declared the method. -/
theorem invokeMethod_identifies (hw : s.world.Homes) (hm : s.world.DeclaredBy u a m)
    (hthis : s.world.Registered u (s.world.classOf this))
    (hcaller : ∀ c, caller = some c → s.world.Registered u c) (args : List Value) :
    (a ∉ s.world.lineage (s.world.classOf this) →
      invokeMethod exec v caller m this args s =
        (.error (.typeError
        s!"{s.world.className (s.world.classOf this)} is not an instance of {s.world.className a}"),
          s)) ∧
    (a ∈ s.world.lineage (s.world.classOf this) → ¬ s.world.Permits v caller a m →
      ∃ c, caller = some c ∧ invokeMethod exec v caller m this args s =
        (.error (.illegalAccess (s.world.className c) (s.world.className a)
          (s.world.content m).name), s)) ∧
    (a ∈ s.world.lineage (s.world.classOf this) → s.world.Permits v caller a m →
      invokeMethod exec v caller m this args s = exec v m this args s) := by
  have hreceiver := hw.derivesFrom_iff hthis hm.registered
  rw [← hm.number] at hreceiver
  obtain ⟨hallowed, hrefused⟩ := hm.checkAccess (v := v) hw hcaller
  refine ⟨fun hno => ?_, fun hmem hno => ?_, fun hmem hyes => ?_⟩
  · rw [← hreceiver] at hno
    simp only [invokeMethod, World.checkReceiver, if_neg hno, hm.name]
  · obtain ⟨c, hc, herror⟩ := hrefused hno
    refine ⟨c, hc, ?_⟩
    simp only [invokeMethod, World.checkReceiver, if_pos (hreceiver.mpr hmem), herror]
  · simp only [invokeMethod, World.checkReceiver, if_pos (hreceiver.mpr hmem), hallowed hyes]

end Calls

/-- At every moment of a run on machines that work per call, a handle taken from a published class
references what a class of the lineage declared, on the same machine. -/
theorem Reached.declaredBy {host : Host β H} {s : State β (Logged β H)}
    (hb : ∀ b v this args, (host.body b v this args).Uses fun op => op.IsOrdinary = true)
    (hs : Reached host (fun op => op.IsOrdinary = true) s) {w : World β} {th : Thread}
    (hat : s.trail.At w th) (hmode : w.PerCall) {u : VmRef} {c : ClassRef} {m : CellRef}
    (hc : w.Registered u c) (hm : m ∈ w.tableOf c ∨ m ∈ (w.classes.get c).directs) :
    ∃ a ∈ w.lineage c, w.DeclaredBy u a m := by
  obtain ⟨hsound, hdirects⟩ := hs.directs hb hat
  exact hsound.declaredBy hdirects ((hs.lasting hb).exact w hat.mem_worlds hmode) hc hm

/-- **On one machine the checks of a reflective call identify classes.**  At every moment of a
run of ordinary bodies, with however many machines: where the receiver's class and the
caller's are published on the machine of the class that declared what the handle references,
the call is refused as it is unless the receiver's class is that class or derives from it;
it is refused as well if a caller is named that is neither trusted nor shown the method by
its visibility; and otherwise the handle's cell is run. -/
theorem Reached.identifies {host : Host β H} {s : State β (Logged β H)}
    (hb : ∀ b v this args, (host.body b v this args).Uses fun op => op.IsOrdinary = true)
    (hs : Reached host (fun op => op.IsOrdinary = true) s) {w : World β} {th : Thread}
    (hat : s.trail.At w th) {u : VmRef} {a : ClassRef} {m : CellRef} {this : ObjectRef}
    {caller : Option ClassRef} (hm : w.DeclaredBy u a m) (hthis : w.Registered u (w.classOf this))
    (hcaller : ∀ c, caller = some c → w.Registered u c) (v : VmRef) (args : List Value)
    (exec : Executor β (Logged β H)) (h : Logged β H) :
    (a ∉ w.lineage (w.classOf this) →
      invokeMethod exec v caller m this args ⟨w, th, h⟩ =
        (.error (.typeError
          s!"{w.className (w.classOf this)} is not an instance of {w.className a}"), ⟨w, th, h⟩)) ∧
    (a ∈ w.lineage (w.classOf this) → ¬ w.Permits v caller a m →
      ∃ c, caller = some c ∧ invokeMethod exec v caller m this args ⟨w, th, h⟩ =
        (.error (.illegalAccess (w.className c) (w.className a) (w.content m).name),
          ⟨w, th, h⟩)) ∧
    (a ∈ w.lineage (w.classOf this) → w.Permits v caller a m →
      invokeMethod exec v caller m this args ⟨w, th, h⟩ = exec v m this args ⟨w, th, h⟩) :=
  invokeMethod_identifies (s := ⟨w, th, h⟩) (hs.sound hb hat).homes hm hthis hcaller args

/-! ### Two machines -/

namespace Demo

/-- A class with a method of its own. -/
def accountDecl : ClassDecl Body :=
  { name := "App.Account"
    virtuals := [{ name := "close", visibility := .declaring, body := some .onResume }] }

/-- A class that has nothing to do with it. -/
def strangerDecl : ClassDecl Body := { name := "App.Stranger" }

/-- Define the first class on one machine, the second on another, and allocate an instance of
each. -/
def meeting : Program Body Tally Unit := do
  let account ← Program.perform (.define ⟨0⟩ accountDecl)
  let stranger ← Program.perform (.define ⟨1⟩ strangerDecl)
  let _ ← Program.perform (.allocate ⟨0⟩ account)
  let _ ← Program.perform (.allocate ⟨1⟩ stranger)
  pure ()

theorem uses_meeting : meeting.Uses fun op => op.IsOrdinary = true := by
  refine .bind (.perform rfl) fun _ => .bind (.perform rfl) fun _ => ?_
  exact .bind (.perform rfl) fun _ => .bind (.perform rfl) fun _ => trivial

/-- A world with two machines around one core without rows. -/
def twoMachines : World Body :=
  let w := (({} : World Body).newRegistry []).2
  let w := (w.newVmAround { maxDepth } ⟨⟨0⟩, .perCall⟩).2
  (w.newVmAround { maxDepth } ⟨⟨0⟩, .perCall⟩).2

/-- The state after the meeting. -/
def met : State Body (Logged Body Tally) :=
  (meeting.lift.start host.logged ⟨twoMachines, {}, ({}, [])⟩).2

theorem reached_met : Reached host (fun op => op.IsOrdinary = true) met := by
  have hstart : Reached host (fun op => op.IsOrdinary = true) ⟨{}, {}, ({}, [])⟩ :=
    .start ({} : Tally)
  have hregistry := hstart.registry []
  have hfirst := hregistry.machine { maxDepth } ⟨⟨0⟩, .perCall⟩ (Store.live_next_add _ _)
  have hsecond := hfirst.machine { maxDepth } ⟨⟨0⟩, .perCall⟩
    ((World.extends_newVmAround _ _ _).grows.registries ⟨0⟩ (Store.live_next_add _ _)).1
  exact hsecond.run meeting uses_meeting

/-- The method's handle is of the account's class: the root class above it has another number. -/
theorem declaredBy_met : met.world.DeclaredBy ⟨0⟩ ⟨4⟩ ⟨0⟩ := by
  have hregistered : met.world.Registered ⟨0⟩ ⟨4⟩ := by decide +kernel
  have htaken : ⟨0⟩ ∈ met.world.tableOf ⟨4⟩ := by decide +kernel
  obtain ⟨a, ha, hdeclared⟩ := Reached.declaredBy uses_body reached_met met.at_present
    (by decide +kernel) hregistered (Or.inl htaken)
  have habove : ∀ a ∈ met.world.lineage ⟨4⟩,
      (met.world.content ⟨0⟩).owner = (met.world.classes.get a).number → a = ⟨4⟩ := by
    decide +kernel
  obtain rfl := habove a ha hdeclared.number
  exact hdeclared

/-- The host can close the account, and the root class of the same machine cannot. -/
theorem identifies_account :
    invokeMethod (execute host.logged maxDepth) ⟨0⟩ none ⟨0⟩ ⟨0⟩ [] met =
      execute host.logged maxDepth ⟨0⟩ ⟨0⟩ ⟨0⟩ [] met ∧
    invokeMethod (execute host.logged maxDepth) ⟨0⟩ (some ⟨0⟩) ⟨0⟩ ⟨0⟩ [] met =
      (.error (.illegalAccess rootClassName "App.Account" "close"), met) := by
  have hthis : met.world.Registered ⟨0⟩ (met.world.classOf ⟨0⟩) := by decide +kernel
  have hroot : met.world.Registered ⟨0⟩ ⟨0⟩ := by decide +kernel
  have hmem : (⟨4⟩ : ClassRef) ∈ met.world.lineage (met.world.classOf ⟨0⟩) := by decide +kernel
  have hnames : met.world.className ⟨0⟩ = rootClassName ∧ met.world.className ⟨4⟩ = "App.Account" ∧
      (met.world.content ⟨0⟩).name = "close" := by decide +kernel
  have hrefused : ¬ met.world.Permits ⟨0⟩ (some ⟨0⟩) ⟨4⟩ ⟨0⟩ :=
    World.not_permits_declaring (by decide +kernel) (by decide +kernel) (by decide)
  refine ⟨?_, ?_⟩
  · exact (Reached.identifies uses_body reached_met met.at_present declaredBy_met hthis
      (fun c hc => by cases hc) ⟨0⟩ [] _ met.host).2.2 hmem fun c hc => by cases hc
  · obtain ⟨c, hc, hcall⟩ := (Reached.identifies uses_body reached_met met.at_present
      declaredBy_met hthis (fun c hc => by cases hc; exact hroot) ⟨0⟩ []
      (execute host.logged maxDepth) met.host).2.1 hmem hrefused
    cases hc
    obtain ⟨hcaller, howner, hname⟩ := hnames
    have hcall' : invokeMethod (execute host.logged maxDepth) ⟨0⟩ (some ⟨0⟩) ⟨0⟩ ⟨0⟩ [] met =
        (.error (.illegalAccess (met.world.className ⟨0⟩) (met.world.className ⟨4⟩)
          (met.world.content ⟨0⟩).name), met) := hcall
    rw [hcall', hcaller, howner, hname]

/-- Between machines the checks do not: a stranger is taken for an account, and its class,
which is neither the declaring class nor trusted, for the only class that may close it. -/
theorem closed_by_stranger :
    met.world.DeclaredBy ⟨0⟩ ⟨4⟩ ⟨0⟩ ∧ (met.world.content ⟨0⟩).visibility = .declaring ∧
    (⟨4⟩ : ClassRef) ∉ met.world.lineage (met.world.classOf ⟨1⟩) ∧
    met.world.isHandlerClass (met.world.coreOf ⟨0⟩) ⟨5⟩ = false ∧
    ¬ met.world.Permits ⟨0⟩ (some ⟨5⟩) ⟨4⟩ ⟨0⟩ ∧
    met.host.1.methodRuns = 0 ∧
    (invokeMethod (execute host.logged maxDepth) ⟨0⟩ (some ⟨5⟩) ⟨0⟩ ⟨1⟩ [] met).2.host.1.methodRuns
      = 1 := by
  have hvisibility : (met.world.content ⟨0⟩).visibility = .declaring := by decide +kernel
  have htrusted : met.world.isHandlerClass (met.world.coreOf ⟨0⟩) ⟨5⟩ = false := by
    decide +kernel
  exact ⟨declaredBy_met, hvisibility, by decide +kernel, htrusted,
    World.not_permits_declaring hvisibility htrusted (by decide), by decide +kernel,
    by decide +kernel⟩

end Demo

end Interception
