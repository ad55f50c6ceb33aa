/-
How a patch can end.

Patching finds out first whether it can go ahead, and there are six ways in which that can end;
only the last of them touches the world.  `Answers` lists them once, with everything that is known
in each, so that nothing else has to look into the definition.
-/
import Interception.Proofs.WindowSteps

namespace Interception.World

variable {β : Type} {w : World β} {v : VmRef} {core : Core} {c : ClassRef} {i : Nat}

/-- What patching answers, and when. -/
inductive Answers (w : World β) (v : VmRef) (core : Core) (c : ClassRef) :
    PatchOutcome × World β → Prop
  | notIntercepted (hnone : w.ownEntry core.registry c = none) :
      Answers w v core c (.notIntercepted, w)
  | alreadyPatched {i : Nat} {r : Resolution} (hi : w.ownEntry core.registry c = some i)
      (hr : w.Resolves core.registry i r) (habove : r.cls ∈ w.lineage c) :
      Answers w v core c (.alreadyPatched, w)
  | boundToOtherClass {i : Nat} {r : Resolution} (hi : w.ownEntry core.registry c = some i)
      (hr : w.Resolves core.registry i r) (hoff : r.cls ∉ w.lineage c) :
      Answers w v core c (.skipped (.boundToOtherClass (w.className c)), w)
  | handlerClassNotFound {i : Nat} (hi : w.ownEntry core.registry c = some i)
      (hnone : (w.entry core.registry i).resolution = none)
      (hfind : w.findClass v (w.entry core.registry i).row.handlerClass = none) :
      Answers w v core c
        (.skipped (.handlerClassNotFound (w.entry core.registry i).row.handlerClass), w)
  | handlerFieldMissing {i : Nat} {handler : ClassRef}
      (hi : w.ownEntry core.registry c = some i)
      (hnone : (w.entry core.registry i).resolution = none)
      (hfind : w.findClass v (w.entry core.registry i).row.handlerClass = some handler)
      (hoffset : (w.classes.get c).fieldOffset handlerFieldName handlerFieldType = none) :
      Answers w v core c (.skipped (.handlerFieldMissing (w.className c)), w)
  | patched {i : Nat} {handler : ClassRef} {offset : Nat}
      (hi : w.ownEntry core.registry c = some i)
      (hnone : (w.entry core.registry i).resolution = none)
      (hfind : w.findClass v (w.entry core.registry i).row.handlerClass = some handler)
      (hoffset : (w.classes.get c).fieldOffset handlerFieldName handlerFieldType = some offset) :
      Answers w v core c
        (.patched ((w.tableOf c).countP fun m =>
          (w.entry core.registry i).row.intercepts (w.content m).name),
          w.installTrampolines core.registry i c handler offset)

theorem answers_patch (w : World β) (v : VmRef) (core : Core) (c : ClassRef) :
    Answers w v core c (w.patch v core c) := by
  unfold patch
  split
  · rename_i hnone
    exact .notIntercepted hnone
  · rename_i i hi
    simp only
    split
    · rename_i hfor
      obtain ⟨r, hr⟩ := Option.isSome_iff_exists.mp hfor
      obtain ⟨hres, habove⟩ := resolvedFor_eq_some.mp hr
      exact .alreadyPatched hi hres habove
    · rename_i hfor
      split
      · rename_i hsome
        obtain ⟨r, hres⟩ := Option.isSome_iff_exists.mp hsome
        refine .boundToOtherClass hi hres fun habove => hfor ?_
        rw [resolvedFor_eq_some.mpr ⟨hres, habove⟩]
        rfl
      · rename_i hres
        have hnone : (w.entry core.registry i).resolution = none := by
          simpa [Entry.isResolved] using hres
        unfold resolveRow
        cases hfind : w.findClass v (w.entry core.registry i).row.handlerClass with
        | none => exact .handlerClassNotFound hi hnone hfind
        | some handler =>
          cases hoffset : (w.classes.get c).fieldOffset handlerFieldName handlerFieldType with
          | none => exact .handlerFieldMissing hi hnone hfind hoffset
          | some offset => exact .patched hi hnone hfind hoffset

namespace Answers

variable {y : PatchOutcome} {x : World β} {r : Resolution}

theorem notIntercepted_iff (h : Answers w v core c (y, x)) :
    y = .notIntercepted ↔ w.ownEntry core.registry c = none := by
  cases h with
  | notIntercepted hnone => exact iff_of_true rfl hnone
  | alreadyPatched hi _ _ => simp [hi]
  | boundToOtherClass hi _ _ => simp [hi]
  | handlerClassNotFound hi _ _ => simp [hi]
  | handlerFieldMissing hi _ _ _ => simp [hi]
  | patched hi _ _ _ => simp [hi]

/-- Under an open entry the class of handlers is looked for first, the field after it. -/
theorem of_unresolved (h : Answers w v core c (y, x)) (hi : w.ownEntry core.registry c = some i)
    (hnone : (w.entry core.registry i).resolution = none) :
    match w.findClass v (w.entry core.registry i).row.handlerClass,
      (w.classes.get c).fieldOffset handlerFieldName handlerFieldType with
    | none, _ => y = .skipped (.handlerClassNotFound (w.entry core.registry i).row.handlerClass)
    | some _, none => y = .skipped (.handlerFieldMissing (w.className c))
    | some _, some _ => ∃ n, y = .patched n := by
  cases h with
  | notIntercepted hno => cases hi.symm.trans hno
  | alreadyPatched hj hr _ =>
    cases hi.symm.trans hj
    cases hnone.symm.trans hr
  | boundToOtherClass hj hr _ =>
    cases hi.symm.trans hj
    cases hnone.symm.trans hr
  | handlerClassNotFound hj _ hfind =>
    cases hi.symm.trans hj
    simp only [hfind]
  | handlerFieldMissing hj _ hfind hoffset =>
    cases hi.symm.trans hj
    simp only [hfind, hoffset]
  | patched hj _ hfind hoffset =>
    cases hi.symm.trans hj
    simp only [hfind, hoffset]
    exact ⟨_, rfl⟩

/-- Under an entry that was filled in, all that counts is the class it was filled in for. -/
theorem of_resolves (h : Answers w v core c (y, x)) (hi : w.ownEntry core.registry c = some i)
    (hr : w.Resolves core.registry i r) :
    y = if r.cls ∈ w.lineage c then .alreadyPatched
      else .skipped (.boundToOtherClass (w.className c)) := by
  cases h with
  | notIntercepted hno => cases hi.symm.trans hno
  | alreadyPatched hj hr' habove =>
    cases hi.symm.trans hj
    rw [hr.unique hr', if_pos habove]
  | boundToOtherClass hj hr' hoff =>
    cases hi.symm.trans hj
    rw [hr.unique hr', if_neg hoff]
  | handlerClassNotFound hj hnone _ =>
    cases hi.symm.trans hj
    cases hnone.symm.trans hr
  | handlerFieldMissing hj hnone _ _ =>
    cases hi.symm.trans hj
    cases hnone.symm.trans hr
  | patched hj hnone _ _ =>
    cases hi.symm.trans hj
    cases hnone.symm.trans hr

end Answers

/-- A patch that did not go ahead leaves no trace. -/
theorem patch_of_not_isPatched (h : (w.patch v core c).1.isPatched = false) :
    (w.patch v core c).2 = w := by
  have hans := answers_patch w v core c
  generalize w.patch v core c = x at hans h ⊢
  cases hans with
  | patched _ _ _ _ => cases h
  | _ => rfl

end Interception.World
