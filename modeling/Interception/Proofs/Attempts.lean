/-
Patching, time and again.

A class is patched when it is defined, and that may come too early: the class of its handlers is
not there yet.  It can then be patched by hand later, on its own machine or on another one that
shares the registry, any number of times.  An `Attempt` is one call of the patcher together with
the world it was made in, and a `History` is all that happened from one world to another, with the
attempts on the way, the latest first.

Whatever the order, a row is settled once.  The one attempt under it that succeeds fills in the
entry, for the class it was made on; before it attempts fail for what is missing, after it they are
told whether it was for the same class.  That this last test, which is made on the lineage, comes
down to being the same class rests on names: no class is named like one of its superclasses.
-/
import Interception.Proofs.ByHand

namespace Interception

variable {β H : Type}

/-! ### Attempts -/

/-- A call of the patcher: the machine that looks up handler classes, the core whose registry is
asked, the class, and the world it was made in. -/
structure Attempt (β : Type) where
  machine : VmRef
  core : Core
  cls : ClassRef
  before : World β

/-- The attempt that initializing a class makes. -/
def World.hook (w : World β) (v : VmRef) (c : ClassRef) : Attempt β := ⟨v, w.coreOf v, c, w⟩

namespace Attempt

variable (a : Attempt β)

def outcome : PatchOutcome := (a.before.patch a.machine a.core a.cls).1

/-- The world right after the attempt. -/
def after : World β := (a.before.patch a.machine a.core a.cls).2

/-- The row in this position is the one of the class's own name. -/
def Under (g : RegistryRef) (i : Nat) : Prop :=
  a.core.registry = g ∧ a.before.ownEntry g a.cls = some i

/-- The attempt under this row succeeded. -/
def Binds (g : RegistryRef) (i : Nat) : Prop := a.Under g i ∧ a.outcome.isPatched = true

variable {a} {g : RegistryRef} {i : Nat} {r : Resolution}

theorem answers (a : Attempt β) :
    a.before.Answers a.machine a.core a.cls (a.outcome, a.after) :=
  World.answers_patch _ _ _ _

theorem grows (a : Attempt β) : a.before.Grows a.after :=
  (World.extends_patch _ _ _ (Nat.zero_le a.cls.index)).grows

/-- What succeeded has filled in its entry for its class. -/
theorem Binds.resolves (h : a.Binds g i) (ho : a.before.Orderly) :
    ∃ r, a.after.Resolves g i r ∧ r.cls = a.cls := by
  obtain ⟨⟨rfl, hown⟩, hpatched⟩ := h
  have hans := a.answers
  generalize a.outcome = y, a.after = x at hans hpatched ⊢
  cases hans with
  | @patched j _ _ hi hnone _ _ =>
    obtain rfl : j = i := Option.some.inj (hi.symm.trans hown)
    exact ⟨_, World.resolves_patchOf (World.Orderly.registry_live hi) (ho.lt_size hi) hnone, rfl⟩
  | _ => cases hpatched

/-- An entry filled in after an attempt was so before, or the attempt filled it in. -/
theorem resolves_after (h : a.after.Resolves g i r) : a.before.Resolves g i r ∨ a.Binds g i := by
  have hans := a.answers
  have hdef : a.Binds g i ↔ a.Under g i ∧ a.outcome.isPatched = true := Iff.rfl
  rw [hdef]
  generalize a.outcome = y, a.after = x at hans h ⊢
  cases hans with
  | patched hi hnone hfind hoffset =>
    rcases World.resolves_installTrampolines h with hold | ⟨rfl, rfl, -⟩
    · exact Or.inl hold
    · exact Or.inr ⟨⟨rfl, hi⟩, rfl⟩
  | _ => exact Or.inl h

/-- What an attempt comes to, given the attempts made before it. -/
structure Verdict (a : Attempt β) (past : List (Attempt β)) : Prop where
  /-- There is nothing to do exactly for a class whose name no row has. -/
  notIntercepted : a.outcome = .notIntercepted ↔
    ∀ i < (a.before.registries.get a.core.registry).entries.size,
      (a.before.entry a.core.registry i).row.className ≠ a.before.className a.cls
  /-- Until an attempt under the row has succeeded, this one fails for the class of handlers, or
  else for the field, or else succeeds. -/
  pending : ∀ {g i}, a.Under g i → (∀ b ∈ past, ¬ b.Binds g i) →
    match a.before.findClass a.machine (a.before.entry g i).row.handlerClass,
      (a.before.classes.get a.cls).fieldOffset handlerFieldName handlerFieldType with
    | none, _ => a.outcome =
        .skipped (.handlerClassNotFound (a.before.entry g i).row.handlerClass)
    | some _, none => a.outcome = .skipped (.handlerFieldMissing (a.before.className a.cls))
    | some _, some _ => ∃ n, a.outcome = .patched n
  /-- After that, it depends on whether the class is the same. -/
  settled : ∀ {g i b}, a.Under g i → b ∈ past → b.Binds g i →
    a.outcome = if a.cls = b.cls then .alreadyPatched
      else .skipped (.boundToOtherClass (a.before.className a.cls))
  /-- Only success leaves a trace. -/
  untouched : a.outcome.isPatched = false → a.after = a.before

end Attempt

/-- The log of attempts accounts for the entries filled in, and each attempt in it came to what it
had to. -/
structure Noted (w : World β) (log : List (Attempt β)) : Prop where
  bound : ∀ {g i r}, w.Resolves g i r ↔ ∃ a ∈ log, a.Binds g i ∧ a.after.Resolves g i r
  made : ∀ {a g i}, a ∈ log → a.Binds g i → ∃ r, a.after.Resolves g i r ∧ r.cls = a.cls
  judged : ∀ {a past}, a :: past <:+ log → a.Verdict past

namespace Noted

variable {w w' : World β} {log : List (Attempt β)}

theorem empty : Noted ({} : World β) [] where
  bound := ⟨fun hr => absurd hr.live (Nat.not_lt_zero _), by rintro ⟨_, ha, -⟩; cases ha⟩
  made ha := by cases ha
  judged h := by cases List.suffix_nil.mp h

/-- Where no entry is filled in. -/
theorem of_resolves (h : Noted w log) (hres : ∀ {g i r}, w'.Resolves g i r ↔ w.Resolves g i r) :
    Noted w' log :=
  ⟨hres.trans h.bound, h.made, h.judged⟩

/-- What the log says of an entry decides what the next attempt under it comes to. -/
theorem verdict (h : Noted w log) (ho : w.Orderly) (hf : w.Filled) (ht : w.Titled)
    (hl : w.Complete) (v : VmRef) (core : Core) (c : ClassRef) :
    (⟨v, core, c, w⟩ : Attempt β).Verdict log where
  notIntercepted := (Attempt.answers _).notIntercepted_iff.trans (hl.ownEntry_eq_none_iff ho)
  pending {g i} hunder hpast := by
    obtain ⟨rfl, hown⟩ := hunder
    refine (Attempt.answers _).of_unresolved hown ?_
    refine Option.eq_none_iff_forall_ne_some.mpr fun r hr => ?_
    obtain ⟨b, hb, hbinds, -⟩ := h.bound.mp hr
    exact hpast b hb hbinds
  settled {g i b} hunder hb hbinds := by
    obtain ⟨rfl, hown⟩ := hunder
    obtain ⟨r, hafter, hcls⟩ := h.made hb hbinds
    have hr : w.Resolves core.registry i r := h.bound.mpr ⟨b, hb, hbinds, hafter⟩
    have hsame : r.cls ∈ w.lineage c ↔ c = b.cls :=
      ⟨fun habove => (ht.eq_of_ownEntry ho habove (hf.own hr) hown).symm.trans hcls, fun heq => by
        rw [hcls, ← heq]
        exact w.mem_lineage_self c⟩
    rw [(Attempt.answers _).of_resolves hown hr]
    simp only [hsame]
  untouched := World.patch_of_not_isPatched

/-- One more attempt. -/
theorem attempt (h : Noted w log) (ho : w.Orderly) (hf : w.Filled) (ht : w.Titled)
    (hl : w.Complete) (v : VmRef) (core : Core) (c : ClassRef) :
    Noted (w.patch v core c).2 (⟨v, core, c, w⟩ :: log) where
  bound {g i r} := by
    let a : Attempt β := ⟨v, core, c, w⟩
    constructor
    · intro hr
      rcases Attempt.resolves_after (a := a) hr with hold | hnew
      · obtain ⟨b, hb, hbinds, hafter⟩ := h.bound.mp hold
        exact ⟨b, List.mem_cons_of_mem _ hb, hbinds, hafter⟩
      · exact ⟨a, List.mem_cons_self, hnew, hr⟩
    · rintro ⟨b, hb, hbinds, hr⟩
      rcases List.mem_cons.mp hb with rfl | hb
      · exact hr
      · exact a.grows.resolved (h.bound.mpr ⟨b, hb, hbinds, hr⟩)
  made {a g i} ha hbinds := by
    rcases List.mem_cons.mp ha with rfl | ha
    · exact hbinds.resolves ho
    · exact h.made ha hbinds
  judged {a past} hsuffix := by
    rcases List.suffix_cons_iff.mp hsuffix with heq | hsuffix
    · obtain ⟨rfl, rfl⟩ := List.cons.inj heq
      exact h.verdict ho hf ht hl v core c
    · exact h.judged hsuffix

/-- The attempt made in enrolling a class. -/
theorem enroll (h : Noted w log) (ho : w.Orderly) (hf : w.Filled) (ht : w.Titled)
    (hl : w.Complete) (v : VmRef) (c : ClassRef) : Noted (w.enroll v c) (w.hook v c :: log) :=
  (h.attempt ho hf ht hl v (w.coreOf v) c).of_resolves Iff.rfl

end Noted

/-! ### Histories -/

/-- What can happen from one world to another, with the attempts made on the way, the latest
first: registries and machines are set up, classes are defined, objects are made and written, and
classes of machines of one registry are patched by hand. -/
inductive History (w₀ : World β) : World β → List (Attempt β) → Prop
  | start : History w₀ w₀ []
  | registry {w log} (h : History w₀ w log) (rows : List Row) :
      History w₀ (w.newRegistry rows).2 log
  /-- Both classes of a new machine are initialized. -/
  | machine {w log} (h : History w₀ w log) (options : VmOptions) (core : Core) :
      History w₀ (w.newVmAround options core).2
        (((w.bareMachine options core).enroll w.vms.next w.classes.next).hook w.vms.next
            ⟨w.classes.size + 1⟩ ::
          (w.bareMachine options core).hook w.vms.next w.classes.next :: log)
  /-- A class is initialized after it was linked, before it is published. -/
  | define {w w' log v d c s} (h : History w₀ w log) (hd : w.define v d = .ok (c, w'))
      (hs : w.findClass v (d.extends?.getD rootClassName) = some s) :
      History w₀ w' ((w.link d (w.vms.get v).classes.next (some s)).2.hook v c :: log)
  | objects {w w' log} (h : History w₀ w log) (hstep : w.OnlyObjects w') : History w₀ w' log
  | patch {w log c} {u v : VmRef} {core : Core} (h : History w₀ w log) (hu : w.Registered u c)
      (hcore : (w.coreOf u).registry = core.registry)
      (hv : (w.coreOf v).registry = core.registry) :
      History w₀ (w.patch v core c).2 (⟨v, core, c, w⟩ :: log)

namespace History

variable {w₀ w w' : World β} {log : List (Attempt β)}

/-- Nothing is lost on the way. -/
theorem grows (h : History w₀ w log) : w₀.Grows w := by
  induction h with
  | start => exact .refl _
  | registry _ rows ih => exact ih.trans (World.extends_newRegistry 0 _ rows).grows
  | machine _ options core ih => exact ih.trans (World.extends_newVmAround _ options core).grows
  | define _ hd _ ih => exact ih.trans (World.extends_define hd).grows
  | objects _ hstep ih => exact ih.trans (hstep.toExtends 0).grows
  | patch _ _ _ _ ih => exact ih.trans (World.extends_patch _ _ _ (Nat.zero_le _)).grows

end History

/-- What is known of a world that came about in any of these ways. -/
structure Accounted (w : World β) (log : List (Attempt β)) : Prop where
  sound : w.Sound
  oneHome : w.OneHome
  titled : w.Titled
  complete : w.Complete
  noted : Noted w log

namespace Accounted

variable {w w' : World β} {log : List (Attempt β)} {v : VmRef} {c : ClassRef}

theorem empty : Accounted ({} : World β) [] := ⟨.empty, .empty, .empty, .empty, .empty⟩

theorem newRegistry (h : Accounted w log) (rows : List Row) :
    Accounted (w.newRegistry rows).2 log where
  sound := h.sound.newRegistry rows
  oneHome := h.oneHome.of_classes fun _ => rfl
  titled := h.titled.of_sameClasses ⟨fun _ => Iff.rfl, fun _ => .refl _⟩ fun _ => rfl
  complete := h.complete.newRegistry rows
  noted := h.noted.of_resolves
    ⟨World.resolves_newRegistry, (World.extends_newRegistry 0 w rows).grows.resolved⟩

theorem of_onlyObjects (h : Accounted w log) (ho : w.OnlyObjects w') : Accounted w' log := by
  have hvms : ∀ v, (w'.vms.get v).classes = (w.vms.get v).classes := fun v => by
    obtain ⟨n, hn⟩ := ho.vms v
    rw [hn]
  exact
    { sound := h.sound.of_onlyObjects ho
      oneHome := h.oneHome.of_classes hvms
      titled := h.titled.of_sameClasses ho.sameClasses hvms
      complete := fun g => by
        rw [ho.registries]
        exact h.complete g
      noted := h.noted.of_resolves fun {g i r} => by
        rw [World.Resolves, ho.entry, World.Resolves] }

theorem define (h : Accounted w log) {d : ClassDecl β} {s : ClassRef}
    (hd : w.define v d = .ok (c, w'))
    (hs : w.findClass v (d.extends?.getD rootClassName) = some s) :
    Accounted w' ((w.link d (w.vms.get v).classes.next (some s)).2.hook v c :: log) := by
  have hsound := (h.sound.define hd).1
  have htitled := h.titled.define h.sound hd
  obtain ⟨hfree, rfl, s', hs', hw'⟩ := World.define_eq_ok hd
  obtain rfl : s' = s := Option.some.inj (hs'.symm.trans hs)
  obtain ⟨hreg, -⟩ := h.sound.homes.of_findClass hs
  have hext := World.extends_link 0 w d (w.vms.get v).classes.next (some s')
  have hfilled := h.sound.filled.of_grows h.sound.orderly h.sound.homes.live hext.grows fun hr => hr
  have hlinked : Noted (w.link d (w.vms.get v).classes.next (some s')).2 log :=
    h.noted.of_resolves Iff.rfl
  have hnoted := hlinked.enroll (h.sound.orderly.link d _ _) hfilled
    (h.titled.linked h.sound hfree hreg _) h.complete v w.classes.next
  have honeHome : (w.link d (w.vms.get v).classes.next (some s')).2.OneHome :=
    h.oneHome.of_classes fun _ => rfl
  have hnew := World.newcomer_link h.sound.orderly h.sound.lineages h.sound.homes d hreg
  have hcomplete : (w.link d (w.vms.get v).classes.next (some s')).2.Complete := h.complete
  obtain rfl : w' = (w.link d (w.vms.get v).classes.next (some s')).2.enroll v w.classes.next :=
    hw'
  exact ⟨hsound, honeHome.enroll hnew, htitled, hcomplete.enroll v _, hnoted⟩

theorem newVmAround (h : Accounted w log) (options : VmOptions) (core : Core) :
    Accounted (w.newVmAround options core).2
      (((w.bareMachine options core).enroll w.vms.next w.classes.next).hook w.vms.next
          ⟨w.classes.size + 1⟩ ::
        (w.bareMachine options core).hook w.vms.next w.classes.next :: log) := by
  have hsound := h.sound.newVmAround options core
  have htitled := h.titled.newVmAround h.sound options core
  have hroot := World.newcomer_root options core h.sound.orderly h.sound.lineages h.sound.homes
  have hproxy := World.newcomer_proxy options core h.sound.orderly h.sound.lineages
    h.sound.homes
  have hext := World.extends_bareMachine 0 w options core
  have ho := h.sound.orderly.bareMachine options core
  have hh := h.sound.homes.bareMachine options core
  have hf := h.sound.filled.of_grows h.sound.orderly h.sound.homes.live hext.grows fun hr => hr
  have ht := h.titled.bareMachine h.sound options core
  have hone := h.oneHome.of_classes (World.vmClasses_bareMachine w options core)
  have hcomplete : (w.bareMachine options core).Complete := h.complete
  have hnoted : Noted (w.bareMachine options core) log := h.noted.of_resolves Iff.rfl
  rw [World.newVmAround_enrolls] at hsound htitled ⊢
  generalize w.bareMachine options core = x at *
  have hfirst := hnoted.enroll ho hf ht hcomplete w.vms.next w.classes.next
  have hcomplete' := hcomplete.enroll w.vms.next w.classes.next
  exact
    { sound := hsound
      oneHome := (hone.enroll hroot).enroll hproxy
      titled := htitled
      complete := hcomplete'.enroll w.vms.next _
      noted := hfirst.enroll (ho.enroll hroot) (hf.enroll ho hh hroot) (ht.enroll hroot) hcomplete'
        w.vms.next _ }

theorem patch (h : Accounted w log) {u : VmRef} {core : Core} (hu : w.Registered u c)
    (hcore : (w.coreOf u).registry = core.registry) (hv : (w.coreOf v).registry = core.registry) :
    Accounted (w.patch v core c).2 (⟨v, core, c, w⟩ :: log) := by
  have hg := (World.extends_patch w v core (Nat.zero_le c.index)).grows
  have hvms := World.vms_patch w v core c
  exact
    { sound := (h.sound.patch h.oneHome hu hcore hv).1
      oneHome := h.oneHome.of_classes fun _ => by rw [hvms]
      titled := h.titled.of_sameClasses (.of_grows hg (World.size_patch w v core c))
        fun _ => by rw [hvms]
      complete := h.complete.patch v core c
      noted := h.noted.attempt h.sound.orderly h.sound.filled h.titled h.complete v core c }

end Accounted

/-- All histories from nothing are accounted for. -/
theorem History.accounted {w : World β} {log : List (Attempt β)} (h : History {} w log) :
    Accounted w log := by
  induction h with
  | start => exact .empty
  | registry _ rows ih => exact ih.newRegistry rows
  | machine _ options core ih => exact ih.newVmAround options core
  | define _ hd hs ih => exact ih.define hd hs
  | objects _ hstep ih => exact ih.of_onlyObjects hstep
  | patch _ hu hcore hv ih => exact ih.patch hu hcore hv

/-- **A row is settled once, and every other attempt leaves no trace.**  Take any history: any
number of registries and of machines that share them, any classes defined on them in any order, and
between the definitions any number of patches, made by initialization or by hand, of any class of a
machine by any machine of the same registry.  A class whose name no row has is not intercepted, and
no other class is.  Of the attempts under a row, each fails for the class of handlers, or else for
the field, until one succeeds; every attempt after that says that the class is patched, if it is the
same class, and that the row is bound otherwise.  So at most one succeeds.  An entry is filled in
exactly if one under it succeeded, with what that one filled in, for its class, and whatever happens
afterwards, it stays that way.  An attempt that did not succeed leaves the world as it was. -/
theorem History.settles {w : World β} {log : List (Attempt β)} (h : History {} w log) :
    (∀ {a past}, a :: past <:+ log → a.Verdict past) ∧
    (∀ {a past}, a :: past <:+ log → ∀ g i, a.Binds g i → ∀ b ∈ past, ¬ b.Binds g i) ∧
    (∀ g i r, w.Resolves g i r ↔
      ∃ a ∈ log, a.Binds g i ∧ a.after.Resolves g i r ∧ r.cls = a.cls) ∧
    ∀ {w' log'}, History w w' log' → ∀ g i r, w.Resolves g i r → w'.Resolves g i r := by
  have hnoted := h.accounted.noted
  refine ⟨hnoted.judged, fun {a past} hsuffix g i ha b hb hbinds => ?_, fun g i r => ?_,
    fun h' _ _ _ hr => h'.grows.resolved hr⟩
  · have hsettled := (hnoted.judged hsuffix).settled ha.1 hb hbinds
    have hpatched := ha.2
    rw [hsettled] at hpatched
    split at hpatched <;> cases hpatched
  · refine hnoted.bound.trans (exists_congr fun a => and_congr_right fun ha => ?_)
    refine and_congr_right fun hbinds => ⟨fun hr => ⟨hr, ?_⟩, And.left⟩
    obtain ⟨r', hr', hcls⟩ := hnoted.made ha hbinds
    rw [hr.unique hr']
    exact hcls

/-! ### Two machines, one registry -/

/-- A definition that goes ahead, with its attempt. -/
theorem History.defined {w₀ w : World β} {log : List (Attempt β)} (h : History w₀ w log)
    {v : VmRef} {d : ClassDecl β} {s : ClassRef}
    (hfree : (w.vms.get v).classes.contains d.name = false)
    (hs : w.findClass v (d.extends?.getD rootClassName) = some s) :
    History w₀ (w.defined v d)
      ((w.link d (w.vms.get v).classes.next (some s)).2.hook v w.classes.next :: log) := by
  have hs' : (w.vms.get v).classes.byName? (d.extends?.getD rootClassName) = some s := hs
  have hd : w.define v d = .ok (w.classes.next,
      (w.link d (w.vms.get v).classes.next (some s)).2.enroll v w.classes.next) := by
    simp only [World.define, hfree, hs', Bool.false_eq_true, if_false]
    rfl
  rw [World.defined_ok hd]
  exact h.define hd hs

namespace Demo

def sharedCore : Core := ⟨⟨0⟩, .perCall⟩

/-- Two machines over the built-in table.  Each has an activity of its own, and the second also the
class of handlers, which came last. -/
def unhandled : World Body :=
  let alone := (World.newVmAround (World.newRegistry {} builtinRows).2 {} sharedCore).2
  let machines := (alone.newVmAround {} sharedCore).2
  ((machines.defined ⟨0⟩ activityDecl).defined ⟨1⟩ activityDecl).defined ⟨1⟩ handlerDecl

theorem history_unhandled : ∃ log, History {} unhandled log := by
  have hstart : History ({} : World Body) {} [] := .start
  have h := ((hstart.registry builtinRows).machine {} sharedCore).machine {} sharedCore
  have h := h.defined (v := ⟨0⟩) (d := activityDecl) (s := ⟨0⟩) (by decide +kernel)
    (by decide +kernel)
  have h := h.defined (v := ⟨1⟩) (d := activityDecl) (s := ⟨2⟩) (by decide +kernel)
    (by decide +kernel)
  have h := h.defined (v := ⟨1⟩) (d := handlerDecl) (s := ⟨2⟩) (by decide +kernel)
    (by decide +kernel)
  exact ⟨_, h⟩

/-- The first machine's activity patched by the second machine. -/
def handedOver : Attempt Body := ⟨⟨1⟩, sharedCore, ⟨4⟩, unhandled⟩

/-- The second machine's own activity, after that. -/
def comesLate : Attempt Body := ⟨⟨1⟩, sharedCore, ⟨5⟩, handedOver.after⟩

/-- And the first machine's again. -/
def askedAgain : Attempt Body := ⟨⟨0⟩, sharedCore, ⟨4⟩, comesLate.after⟩

/-- The row goes to the class it was first settled for, whichever machine saw to that. -/
theorem settles_askedAgain : handedOver.outcome = .patched 1 ∧
    comesLate.outcome = .skipped (.boundToOtherClass activityName) ∧
    comesLate.after = handedOver.after ∧ askedAgain.outcome = .alreadyPatched ∧
    ∃ r, askedAgain.after.Resolves ⟨0⟩ 0 r ∧ r.cls = ⟨4⟩ := by
  obtain ⟨log, hstart⟩ := history_unhandled
  have hfirst : unhandled.Registered ⟨0⟩ ⟨4⟩ ∧ unhandled.Registered ⟨1⟩ ⟨5⟩ := by decide +kernel
  have hcores : (unhandled.coreOf ⟨0⟩).registry = ⟨0⟩ ∧ (unhandled.coreOf ⟨1⟩).registry = ⟨0⟩ := by
    decide +kernel
  have hg₁ := handedOver.grows
  have hg₂ := hg₁.trans comesLate.grows
  have hcores₁ := fun {v} (hv : unhandled.vms.Live v) => congrArg Core.registry (hg₁.coreOf hv)
  have hcores₂ := fun {v} (hv : unhandled.vms.Live v) => congrArg Core.registry (hg₂.coreOf hv)
  have hlive := hfirst.1.live_vm
  have hlive' := hfirst.2.live_vm
  have h₁ : History {} handedOver.after (handedOver :: log) :=
    hstart.patch hfirst.1 hcores.1 hcores.2
  have h₂ : History {} comesLate.after (comesLate :: handedOver :: log) :=
    h₁.patch (hfirst.2.of_grows hg₁) ((hcores₁ hlive').trans hcores.2)
      ((hcores₁ hlive').trans hcores.2)
  have h₃ : History {} askedAgain.after (askedAgain :: comesLate :: handedOver :: log) :=
    h₂.patch (hfirst.1.of_grows hg₂) ((hcores₂ hlive).trans hcores.1)
      ((hcores₂ hlive).trans hcores.1)
  obtain ⟨hjudged, -, hbound, -⟩ := h₃.settles
  have hbinds : handedOver.Binds ⟨0⟩ 0 := ⟨⟨rfl, by decide +kernel⟩, by decide +kernel⟩
  have hlate := hjudged (List.suffix_cons _ _)
  have hagain := hjudged (List.suffix_refl _)
  have hname : comesLate.before.className ⟨5⟩ = activityName := by decide +kernel
  have houtcome : comesLate.outcome = .skipped (.boundToOtherClass activityName) :=
    (hlate.settled ⟨rfl, by decide +kernel⟩ List.mem_cons_self hbinds).trans
      (by rw [← hname]; rfl)
  obtain ⟨r, hafter, hcls⟩ := hbinds.resolves hstart.accounted.sound.orderly
  refine ⟨by decide +kernel, houtcome, hlate.untouched (by rw [houtcome]; rfl), ?_, r, ?_, hcls⟩
  · exact hagain.settled ⟨rfl, by decide +kernel⟩ (List.mem_cons_of_mem _ List.mem_cons_self) hbinds
  · exact (hbound ⟨0⟩ 0 r).mpr ⟨handedOver, by simp, hbinds, hafter, hcls⟩

end Demo

end Interception
