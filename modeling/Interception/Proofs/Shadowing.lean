/-
Rows that are shadowed.

A registry keeps the first row for each class name, and it answers as if the later ones were not
in its table: they have no entry, no class is looked up under them, and the handler classes they
name are not trusted for it.

Entries and index are built side by side, so one induction over the table, from its end, says of
both what they are made of.  Afterwards neither the rows of the entries nor the index change,
whatever is set up and run, and so the answers are the same in every world to come.
-/
import Mathlib.Data.List.Induction
import Interception.Proofs.Succession
import Interception.Proofs.Dispatching

namespace Interception

/-! ### Rows whose class name is new -/

/-- No row of the table has the class name of this one. -/
def Row.NewTo (r : Row) (rows : List Row) : Prop := ∀ x ∈ rows, x.className ≠ r.className

instance (r : Row) (rows : List Row) : Decidable (r.NewTo rows) :=
  inferInstanceAs (Decidable (∀ x ∈ rows, x.className ≠ r.className))

/-- The rows whose class name does not occur earlier in the table, in table order. -/
def unshadowed (rows : List Row) : List Row :=
  (rows.zipIdx.filter fun (r, j) => r.NewTo (rows.take j)).map Prod.fst

theorem unshadowed_concat (rows : List Row) (r : Row) :
    unshadowed (rows ++ [r]) = unshadowed rows ++ if r.NewTo rows then [r] else [] := by
  have hbefore : ∀ p ∈ rows.zipIdx, (rows ++ [r]).take p.2 = rows.take p.2 := fun p hp =>
    List.take_append_of_le_length (Nat.le_of_lt (List.snd_lt_of_mem_zipIdx hp))
  have hfirst : rows.zipIdx.filter (fun (x, j) => x.NewTo ((rows ++ [r]).take j)) =
      rows.zipIdx.filter fun (x, j) => x.NewTo (rows.take j) := by
    refine List.filter_congr fun p hp => ?_
    simp only [hbefore p hp]
  rw [unshadowed, List.zipIdx_append, List.filter_append, List.map_append, hfirst,
    List.zipIdx_singleton, Nat.zero_add, List.filter_cons, List.filter_nil]
  simp only [List.take_left, decide_eq_true_eq]
  split <;> rfl

/-- For each class name the first row is kept. -/
theorem find?_unshadowed (rows : List Row) (name : String) :
    (unshadowed rows).find? (·.className == name) = rows.find? (·.className == name) := by
  induction rows using List.reverseRecOn with
  | nil => rfl
  | append_singleton rows r ih =>
    rw [unshadowed_concat, List.find?_append, List.find?_append, ih]
    split
    · rfl
    · rename_i hshadowed
      by_cases hr : r.className = name
      · have hfound : (rows.find? (·.className == name)).isSome := by
          rw [Row.NewTo] at hshadowed
          push Not at hshadowed
          obtain ⟨x, hx, hxr⟩ := hshadowed
          rw [List.find?_isSome]
          exact ⟨x, hx, beq_iff_eq.mpr (hxr.trans hr)⟩
        rw [Option.or_of_isSome hfound, Option.or_of_isSome hfound]
      · rw [List.find?_cons_of_neg (by simpa using hr)]

theorem mem_unshadowed_iff {rows : List Row} {r : Row} : r ∈ unshadowed rows ↔
    ∃ earlier later, rows = earlier ++ r :: later ∧ r.NewTo earlier := by
  simp only [unshadowed, List.mem_map, List.mem_filter, decide_eq_true_eq, Prod.exists,
    List.mem_zipIdx_iff_getElem?]
  constructor
  · rintro ⟨_, j, ⟨hj, hnew⟩, rfl⟩
    obtain ⟨hlt, hget⟩ := List.getElem?_eq_some_iff.mp hj
    refine ⟨rows.take j, rows.drop (j + 1), ?_, hnew⟩
    rw [← hget, List.getElem_cons_drop, List.take_append_drop]
  · rintro ⟨earlier, later, rfl, hnew⟩
    refine ⟨r, earlier.length, ⟨?_, ?_⟩, rfl⟩
    · rw [List.getElem?_append_right (Nat.le_refl _), Nat.sub_self, List.getElem?_cons_zero]
    · rw [List.take_left]
      exact hnew

theorem Row.newTo_iff {r : Row} {rows : List Row} :
    r.NewTo rows ↔ rows.find? (·.className == r.className) = none := by
  simp only [Row.NewTo, List.find?_eq_none, beq_iff_eq, ne_eq]

theorem Row.newTo_unshadowed {r : Row} {rows : List Row} :
    r.NewTo (unshadowed rows) ↔ r.NewTo rows := by
  rw [Row.newTo_iff, find?_unshadowed, Row.newTo_iff]

/-- Among the rows kept a class name occurs once. -/
theorem pairwise_unshadowed (rows : List Row) :
    (unshadowed rows).Pairwise fun x r => x.className ≠ r.className := by
  induction rows using List.reverseRecOn with
  | nil => exact .nil
  | append_singleton rows r ih =>
    rw [unshadowed_concat]
    split
    · rename_i hnew
      rw [List.pairwise_append]
      refine ⟨ih, List.pairwise_singleton .., fun x hx y hy => ?_⟩
      rw [List.mem_singleton.mp hy]
      exact Row.newTo_unshadowed.mpr hnew x hx
    · rw [List.append_nil]
      exact ih

/-! ### Registries over a table -/

namespace Registry

theorem position?_addRow (g : Registry) (r : Row) (name : String) :
    (g.addRow r).position? name =
      (g.position? name).or (if r.className = name then some g.entries.size else none) := by
  unfold addRow
  split
  · rename_i i hi
    by_cases hname : r.className = name
    · subst hname
      rw [position?, hi]
      rfl
    · rw [if_neg hname, Option.or_none]
  · rename_i hnone
    show ((r.className, g.entries.size) :: g.index).lookup name = _
    by_cases hname : r.className = name
    · subst hname
      rw [List.lookup_cons_self, position?, hnone, if_pos rfl]
      rfl
    · rw [List.lookup_cons, beq_eq_false_iff_ne.mpr (Ne.symm hname), if_neg hname, Option.or_none]
      rfl

theorem entries_addRow (g : Registry) (r : Row) :
    (g.addRow r).entries.toList =
      g.entries.toList ++ if g.position? r.className = none then [{ row := r }] else [] := by
  unfold addRow
  split
  · rename_i i hi
    rw [position?, hi, if_neg (Option.some_ne_none i), List.append_nil]
  · rename_i hnone
    rw [position?, hnone, if_pos rfl, Array.toList_push]

/-- Of the rows of a table those are kept whose class name is new, in table order and as good as
new, and a name is found where its first row was kept. -/
theorem ofRows_eq (rows : List Row) :
    (ofRows rows).entries.toList = (unshadowed rows).map (fun r => { row := r }) ∧
      ∀ name, (ofRows rows).position? name =
        (unshadowed rows).findIdx? (·.className == name) := by
  induction rows using List.reverseRecOn with
  | nil => exact ⟨rfl, fun _ => rfl⟩
  | append_singleton rows r ih =>
    obtain ⟨hentries, hindex⟩ := ih
    have hstep : ofRows (rows ++ [r]) = (ofRows rows).addRow r := by
      rw [ofRows, List.foldl_append]
      rfl
    have hsize : (ofRows rows).entries.size = (unshadowed rows).length := by
      rw [← Array.length_toList, hentries, List.length_map]
    have hfree : (ofRows rows).position? r.className = none ↔ r.NewTo rows := by
      rw [← Row.newTo_unshadowed, hindex, List.findIdx?_eq_none_iff]
      simp only [Row.NewTo, beq_eq_false_iff_ne]
    refine ⟨?_, fun name => ?_⟩
    · rw [hstep, entries_addRow, hentries, unshadowed_concat, List.map_append]
      by_cases hnew : r.NewTo rows
      · rw [if_pos (hfree.mpr hnew), if_pos hnew]
        rfl
      · rw [if_neg (mt hfree.mp hnew), if_neg hnew]
        rfl
    · rw [hstep, position?_addRow, hsize, hindex, unshadowed_concat]
      by_cases hnew : r.NewTo rows
      · rw [if_pos hnew, List.findIdx?_append, List.findIdx?_singleton]
        simp only [beq_iff_eq]
        split <;> simp
      · -- A name that occurred is found already, and any other name is not this row's.
        rw [if_neg hnew, List.append_nil]
        by_cases hname : r.className = name
        · subst hname
          refine Option.or_of_isSome ?_
          rw [← hindex, Option.isSome_iff_ne_none]
          exact mt hfree.mp hnew
        · rw [if_neg hname, Option.or_none]

/-- The index leads nowhere but to entries. -/
theorem lt_size_ofRows (rows : List Row) :
    ∀ p ∈ (ofRows rows).index, p.2 < (ofRows rows).entries.size := by
  have key : ∀ (l : List Row) (g : Registry), (∀ p ∈ g.index, p.2 < g.entries.size) →
      ∀ p ∈ (l.foldl addRow g).index, p.2 < (l.foldl addRow g).entries.size := by
    intro l
    induction l with
    | nil => exact fun g h => h
    | cons r rest ih =>
      refine fun g h => ih _ ?_
      unfold addRow
      split
      · exact h
      · intro p hp
        rw [Array.size_push]
        rcases List.mem_cons.mp hp with rfl | hp
        · exact Nat.lt_succ_self _
        · exact Nat.lt_succ_of_lt (h p hp)
  exact key rows {} fun p hp => by cases hp

/-- The registry was made over the table; its entries may have been filled in since, and windows
opened on them. -/
structure Over (g : Registry) (rows : List Row) : Prop where
  kept : g.rows = unshadowed rows
  index : g.index = (ofRows rows).index

theorem over_ofRows (rows : List Row) : (ofRows rows).Over rows where
  kept := by
    rw [Registry.rows, (ofRows_eq rows).1, List.map_map]
    exact List.map_id _
  index := rfl

theorem length_rows (g : Registry) : g.rows.length = g.entries.size := by
  rw [Registry.rows, List.length_map, Array.length_toList]

theorem getElem?_rows (g : Registry) (i : Nat) :
    g.rows[i]? = if i < g.entries.size then some (g.entry i).row else none := by
  rw [Registry.rows, List.getElem?_map, Array.getElem?_toList, entry, Array.getD_eq_getD_getElem?]
  by_cases hi : i < g.entries.size
  · rw [if_pos hi, Array.getElem?_eq_getElem hi]
    rfl
  · rw [if_neg hi, Array.getElem?_eq_none (Nat.le_of_not_lt hi)]
    rfl

theorem isHandlerClass_iff {g : Registry} {name : String} :
    g.isHandlerClass name = true ↔ ∃ r ∈ g.rows, r.handlerClass = name := by
  simp only [isHandlerClass, Registry.rows, Array.any_eq_true', beq_iff_eq, List.mem_map,
    Array.mem_toList_iff, exists_exists_and_eq_and]

namespace Over

variable {g : Registry} {rows : List Row} (h : g.Over rows)
include h

theorem position?_eq (name : String) :
    g.position? name = g.rows.findIdx? (·.className == name) := by
  rw [h.kept, ← (ofRows_eq rows).2, position?, h.index, position?]

/-- A name is found at the entry of the first row for it. -/
theorem position?_eq_some_iff {name : String} {i : Nat} : g.position? name = some i ↔
    ∃ r, rows.find? (·.className == name) = some r ∧ g.rows[i]? = some r := by
  rw [h.position?_eq, ← find?_unshadowed, ← h.kept, List.findIdx?_eq_some_iff_getElem]
  constructor
  · rintro ⟨hi, hname, hearlier⟩
    refine ⟨g.rows[i], ?_, List.getElem?_eq_getElem hi⟩
    rw [List.find?_eq_some_iff_getElem]
    exact ⟨hname, i, hi, rfl, fun j hj => by simpa using hearlier j hj⟩
  · rintro ⟨r, hr, hget⟩
    obtain ⟨hi, rfl⟩ := List.getElem?_eq_some_iff.mp hget
    have hname := List.find?_some hr
    have hpairs : g.rows.Pairwise fun x r => x.className ≠ r.className := by
      rw [h.kept]
      exact pairwise_unshadowed rows
    refine ⟨hi, hname, fun j hj hsame => ?_⟩
    exact List.pairwise_iff_getElem.mp hpairs j i (Nat.lt_trans hj hi) hi hj
      ((beq_iff_eq.mp hsame).trans (beq_iff_eq.mp hname).symm)

theorem position?_eq_none_iff {name : String} :
    g.position? name = none ↔ ∀ r ∈ rows, r.className ≠ name := by
  have hfind : g.position? name = none ↔ rows.find? (·.className == name) = none := by
    rw [h.position?_eq, ← find?_unshadowed, ← h.kept, List.findIdx?_eq_none_iff,
      List.find?_eq_none]
    simp only [Bool.not_eq_true]
  rw [hfind, List.find?_eq_none]
  simp only [beq_iff_eq, ne_eq]

theorem lt_size : ∀ p ∈ g.index, p.2 < g.entries.size := by
  have hsize : g.entries.size = (ofRows rows).entries.size := by
    rw [← length_rows, h.kept, ← (over_ofRows rows).kept, length_rows]
  rw [h.index, hsize]
  exact lt_size_ofRows rows

/-- A name is trusted if and only if some row names it that is not shadowed. -/
theorem isHandlerClass_iff_unshadowed {name : String} : g.isHandlerClass name = true ↔
    ∃ earlier r later, rows = earlier ++ r :: later ∧ r.NewTo earlier ∧ r.handlerClass = name := by
  rw [isHandlerClass_iff, h.kept]
  simp only [mem_unshadowed_iff]
  constructor
  · rintro ⟨r, ⟨earlier, later, hsplit, hnew⟩, hname⟩
    exact ⟨earlier, r, later, hsplit, hnew, hname⟩
  · rintro ⟨earlier, r, later, hsplit, hnew, hname⟩
    exact ⟨r, ⟨earlier, later, hsplit, hnew⟩, hname⟩

end Over

end Registry

/-! ### Asking a registry -/

namespace World

variable {β : Type} {w w' : World β} {g : RegistryRef} {c : ClassRef} {i : Nat}
  {rows : List Row}

theorem Grows.over (hg : w.Grows w') (hlive : w.registries.Live g)
    (h : (w.registries.get g).Over rows) : (w'.registries.get g).Over rows := by
  obtain ⟨-, hindex, hsize⟩ := hg.registries g hlive
  refine ⟨?_, hindex.trans h.index⟩
  rw [← h.kept]
  refine List.ext_getElem? fun i => ?_
  rw [Registry.getElem?_rows, Registry.getElem?_rows, hsize]
  exact if_congr Iff.rfl (congrArg some (hg.rows g i hlive)) rfl

/-- The nearest entry of a class is the own entry of the first class of its lineage with one. -/
theorem nearestEntry_eq_some_iff : w.nearestEntry g c = some i ↔
    ∃ nearer a farther, w.lineage c = nearer ++ a :: farther ∧
      (∀ b ∈ nearer, w.ownEntry g b = none) ∧ w.ownEntry g a = some i := by
  rw [nearestEntry, List.findSome?_eq_some_iff]
  constructor
  · rintro ⟨nearer, a, farther, hsplit, ha, hnearer⟩
    exact ⟨nearer, a, farther, hsplit, hnearer, ha⟩
  · rintro ⟨nearer, a, farther, hsplit, hnearer, ha⟩
    exact ⟨nearer, a, farther, hsplit, ha, hnearer⟩

end World

/-- **A registry answers by the first row for each class name.**  Let a registry be set up over a
table, and let a world be met at any time after, with whatever was set up and run until then.  The
entries were made of the rows whose class name does not occur earlier in the table, in its order,
and are of these rows still.  The entry under a class's own name is that of the first row with the
name, and there is none if and only if no row has it; the entry that is looked up along the lineage
is the own entry of the first class there with one, and there is none if and only if no class there
has one.  No name is led to a place where there is no entry.  And a class is trusted as a handler
class if and only if it is named so by a row that no earlier one shadows. -/
theorem Follows.answers_unshadowed {β H : Type} {host : Host β H} {w w' : World β}
    {rows : List Row} (h : Follows host (w.newRegistry rows).2 w') :
    let g := (w.newRegistry rows).1
    let kept := w'.registries.get g
    ((w.newRegistry rows).2.registries.get g).entries.toList =
      (unshadowed rows).map (fun r => { row := r }) ∧
    kept.rows = unshadowed rows ∧
    (∀ c i, w'.ownEntry g c = some i ↔ ∃ r,
      rows.find? (·.className == w'.className c) = some r ∧ kept.rows[i]? = some r) ∧
    (∀ c, w'.ownEntry g c = none ↔ ∀ r ∈ rows, r.className ≠ w'.className c) ∧
    (∀ c i, w'.nearestEntry g c = some i ↔ ∃ nearer a farther,
      w'.lineage c = nearer ++ a :: farther ∧ (∀ b ∈ nearer, w'.ownEntry g b = none) ∧
        w'.ownEntry g a = some i) ∧
    (∀ c, w'.nearestEntry g c = none ↔ ∀ a ∈ w'.lineage c, w'.ownEntry g a = none) ∧
    (∀ p ∈ kept.index, p.2 < kept.entries.size) ∧
    ∀ name, kept.isHandlerClass name = true ↔ ∃ earlier r later,
      rows = earlier ++ r :: later ∧ r.NewTo earlier ∧ r.handlerClass = name := by
  intro g kept
  have hmade : (w.newRegistry rows).2.registries.get g = .ofRows rows := Store.get_add_next _ _
  have hover : kept.Over rows :=
    h.grows.over (Store.live_next_add _ _) (hmade ▸ Registry.over_ofRows rows)
  refine ⟨?_, hover.kept, fun c i => hover.position?_eq_some_iff,
    fun c => hover.position?_eq_none_iff, fun c i => World.nearestEntry_eq_some_iff,
    fun c => List.findSome?_eq_none_iff, hover.lt_size,
    fun name => hover.isHandlerClass_iff_unshadowed⟩
  rw [hmade]
  exact (Registry.ofRows_eq rows).1

namespace Demo

def shadowedName : String := "App.ShadowedHandler"

/-- A table whose last row is shadowed by its first. -/
def shadowedRows : List Row :=
  [⟨activityName, [methodName], handlerName⟩, ⟨handlerName, [], activityName⟩,
    ⟨activityName, [], shadowedName⟩]

/-- A machine of the table with nothing on it. -/
def bareShadowed : State Body (Logged Body Tally) :=
  ⟨((({} : World Body).newRegistry shadowedRows).2.newVmAround { maxDepth := 32 }
    ⟨⟨0⟩, .perCall⟩).2, {}, ({}, [])⟩

/-- The same with an instance of the class below the activity. -/
def overShadowed : State Body (Logged Body Tally) :=
  ((stacking ⟨0⟩).lift.start host.logged bareShadowed).2

/-- The class below is looked up under the activity's first row, and the last row is trusted for
nothing. -/
theorem answers_overShadowed :
    Follows host (({} : World Body).newRegistry shadowedRows).2 overShadowed.world ∧
    (overShadowed.world.registries.get ⟨0⟩).rows = shadowedRows.take 2 ∧
    overShadowed.world.ownEntry ⟨0⟩ ⟨4⟩ = none ∧
    overShadowed.world.nearestEntry ⟨0⟩ ⟨4⟩ = some 0 ∧
    (overShadowed.world.registries.get ⟨0⟩).isHandlerClass handlerName = true ∧
    ¬ (overShadowed.world.registries.get ⟨0⟩).isHandlerClass shadowedName = true := by
  have hafter : Follows host (({} : World Body).newRegistry shadowedRows).2 overShadowed.world := by
    have hmachine :
        Follows host (({} : World Body).newRegistry shadowedRows).2 bareShadowed.world :=
      .machine .refl { maxDepth := 32 } ⟨⟨0⟩, .perCall⟩
    exact hmachine.start (stacking ⟨0⟩)
  obtain ⟨-, hrows, hown, hnone, hnearest, -, -, htrusted⟩ := Follows.answers_unshadowed hafter
  have hkept : unshadowed shadowedRows = shadowedRows.take 2 := by decide
  have hactivity : overShadowed.world.ownEntry ⟨0⟩ ⟨3⟩ = some 0 := by
    refine (hown ⟨3⟩ 0).mpr ⟨⟨activityName, [methodName], handlerName⟩, ?_, ?_⟩
    · decide +kernel
    · rw [hrows, hkept]
      rfl
  have hbelow : overShadowed.world.ownEntry ⟨0⟩ ⟨4⟩ = none := by
    refine (hnone ⟨4⟩).mpr ?_
    decide +kernel
  have hlineage : overShadowed.world.lineage ⟨4⟩ = [⟨4⟩] ++ ⟨3⟩ :: [⟨0⟩] := by decide +kernel
  refine ⟨hafter, hrows.trans hkept, hbelow, ?_, ?_, ?_⟩
  · refine (hnearest ⟨4⟩ 0).mpr ⟨[⟨4⟩], ⟨3⟩, [⟨0⟩], hlineage, fun b hb => ?_, hactivity⟩
    rw [List.mem_singleton.mp hb]
    exact hbelow
  · exact (htrusted handlerName).mpr
      ⟨[], ⟨activityName, [methodName], handlerName⟩, shadowedRows.drop 1, rfl, by decide, rfl⟩
  · intro hleak
    obtain ⟨earlier, r, later, hsplit, hnew, hname⟩ := (htrusted shadowedName).mp hleak
    have hmem : r ∈ shadowedRows.take 2 := by
      rw [← hkept]
      exact mem_unshadowed_iff.mpr ⟨earlier, later, hsplit, hnew⟩
    have hunnamed : ∀ r ∈ shadowedRows.take 2, r.handlerClass ≠ shadowedName := by decide
    exact hunnamed r hmem hname

end Demo

end Interception
