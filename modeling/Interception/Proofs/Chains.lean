/-
What a cell stands for in the end.

A trampoline remembers the cell it replaced, and that cell may be a trampoline again, where
a class with a row is linked below another: its table starts from what the superclass has
now.  Following originals leads up the lineage, from what was patched later to what was
patched earlier, so it comes to an end, and where it ends is what the hierarchy declares.

All this needs is that copies still are what patching made them, which is so wherever no
class-wide window is open.
-/
import Interception.Proofs.Loading

namespace Interception.World

variable {β : Type} {w : World β} {c : ClassRef} {g : RegistryRef} {i k n : Nat}
  {r : Resolution} {name : String} {t o u : CellRef}

/-! ### Following originals -/

/-- Following what trampolines replaced leads from one cell in so many steps to another,
which is no trampoline. -/
inductive EndsAt (w : World β) : Nat → CellRef → CellRef → Prop
  | here {t : CellRef} (ht : (w.content t).replaced? = none) : EndsAt w 0 t t
  | through {n : Nat} {t o u : CellRef} (ht : (w.content t).replaced? = some o)
      (ho : EndsAt w n o u) : EndsAt w (n + 1) t u

/-- There is one way to follow. -/
theorem EndsAt.unique {n' : Nat} {u' : CellRef} (h : w.EndsAt n t u) (h' : w.EndsAt n' t u') :
    n = n' ∧ u = u' := by
  induction h generalizing n' with
  | here ht =>
    cases h' with
    | here _ => exact ⟨rfl, rfl⟩
    | through ht' _ =>
      rw [ht] at ht'
      cases ht'
  | through ht _ ih =>
    cases h' with
    | here ht' =>
      rw [ht] at ht'
      cases ht'
    | through ht' ho' =>
      rw [ht] at ht'
      cases ht'
      obtain ⟨rfl, rfl⟩ := ih ho'
      exact ⟨rfl, rfl⟩

/-- A cell that holds the same leads to the same descriptor. -/
theorem EndsAt.of_content (h : w.EndsAt n o u) (hsame : w.content t = w.content o) :
    ∃ u', w.EndsAt n t u' ∧ w.content u' = w.content u := by
  cases h with
  | here ho => exact ⟨t, .here (by rw [hsame, ho]), hsame⟩
  | through ho hrest => exact ⟨u, .through (by rw [hsame, ho]) hrest, rfl⟩

/-- A copy leads where the cell copied leads, one step further if it is listed. -/
theorem EndsAt.of_copyOf (h : w.EndsAt n o u) {row : Row}
    (hcopy : w.content t = row.copyOf (w.content o) o) :
    ∃ n' u', w.EndsAt n' t u' ∧ w.content u' = w.content u := by
  unfold Row.copyOf at hcopy
  split at hcopy
  · refine ⟨n + 1, u, .through ?_ h, rfl⟩
    rw [hcopy]
    rfl
  · obtain ⟨u', hends, hu⟩ := h.of_content hcopy
    exact ⟨n, u', hends, hu⟩

/-! ### The nearest declaration -/

/-- The declaration a class goes by is the last of the nearest class that has one. -/
theorem declaration?_eq_some_iff {a : ClassRef} {d : MethodDecl (Option β)} :
    w.declaration? c name = some (a, d) ↔ ∃ nearer farther,
      w.lineage c = nearer ++ a :: farther ∧ (∀ b ∈ nearer, ¬ w.Declares b name) ∧
        lastNamed (w.classes.get a).declared name = some d := by
  have hnone : ∀ b, (lastNamed (w.classes.get b).declared name).map (b, ·) = none ↔
      ¬ w.Declares b name := fun b => by
    rw [Option.map_eq_none_iff, Declares, Class.declares, ← lastNamed_isSome,
      Option.not_isSome_iff_eq_none]
  rw [declaration?, List.findSome?_eq_some_iff]
  constructor
  · rintro ⟨nearer, b, farther, hsplit, hb, hbefore⟩
    rw [Option.map_eq_some_iff] at hb
    obtain ⟨d', hd', heq⟩ := hb
    cases heq
    exact ⟨nearer, farther, hsplit, fun x hx => (hnone x).mp (hbefore x hx), hd'⟩
  · rintro ⟨nearer, farther, hsplit, hbefore, hd⟩
    exact ⟨nearer, a, farther, hsplit, by rw [hd]; rfl, fun x hx => (hnone x).mpr (hbefore x hx)⟩

/-! ### Originals are higher up -/

/-- What a resolution's copies are copies of was patched for a proper superclass, if it was
patched itself. -/
theorem Sound.above_unpatched (hw : w.Sound) (hr : w.Resolves g i r)
    (ho : (w.tables.get r.unpatched)[k]? = some o) {g' : RegistryRef} {i' j : Nat}
    {r' : Resolution} (hr' : w.Resolves g' i' r')
    (ho' : (w.tables.get r'.intercepted)[j]? = some o) : r'.cls ∈ w.ancestors r.cls := by
  obtain ⟨hmem, -⟩ := (hw.tabled.unpatched hr).copies ho hr' ho'
  rcases List.mem_cons.mp hmem with hcls | habove
  · obtain ⟨rfl, rfl⟩ := hw.orderly.once hr' hr hcls
    obtain rfl := hr.unique hr'
    exact absurd (List.mem_of_getElem? ho')
      (hw.tabled.apart hr (List.mem_of_getElem? ho))
  · exact habove

/-- The position of a copy means the same name in the class that was patched. -/
theorem Sound.slotOf_patched (hw : w.Sound) (hk : w.slotOf c name = some k)
    (hr : w.Resolves g i r) (hmem : r.cls ∈ w.lineage c)
    (ht : (w.tables.get r.intercepted)[k]? = some t) : w.slotOf r.cls name = some k := by
  obtain ⟨name', hname'⟩ :=
    (hw.tabled.intercepted hr).named (List.getElem?_eq_some_iff.mp ht).1
  have hsame : name' = name :=
    hw.lineages.distinct (hw.lineages.slots_of_mem_lineage hmem hname') hk
  rw [← hsame]
  exact hname'

/-- A trampoline holds what it replaced, but for the code, even if it is a copy of a
trampoline itself. -/
theorem Sound.eq_toTrampoline (hw : w.Sound) (he : w.Exact)
    (ht : (w.content t).replaced? = some o) : w.content t = (w.content o).toTrampoline o := by
  have hcopied : ∀ {m o'}, (w.content m).replaced? = some o' → w.Copied m := fun hm =>
    hw.tabled.copied (by rw [Descriptor.isTrampoline, hm]; rfl)
  obtain ⟨g, i, r, j, hr, hj⟩ := hcopied ht
  -- By induction on the class the trampoline is a copy for.
  induction hindex : r.cls.index using Nat.strongRecOn generalizing t g i r j with
  | _ index ih =>
    obtain ⟨name, hname⟩ := (hw.tabled.intercepted hr).named (List.getElem?_eq_some_iff.mp hj).1
    have hlt := (hw.tabled.unpatched hr).lt hname
    have ho : (w.tables.get r.unpatched)[j]? = some (w.tables.get r.unpatched)[j] :=
      List.getElem?_eq_getElem hlt
    have hcopy : w.content t = Row.copyOf _ _ _ := he.related hr hj ho
    generalize (w.tables.get r.unpatched)[j] = o' at ho hcopy
    unfold Row.copyOf at hcopy
    split at hcopy
    · rw [hcopy] at ht
      have hsame : some o' = some o := ht
      cases hsame
      exact hcopy
    · rw [hcopy] at ht ⊢
      obtain ⟨g', i', r', j', hr', hj'⟩ := hcopied ht
      have hbelow := hw.lineages.lt (hw.above_unpatched hr ho hr' hj')
      exact ih _ (hindex ▸ hbelow) ht _ _ _ _ hr' hj' rfl

/-- So does a cell that leads to another. -/
theorem EndsAt.content (h : w.EndsAt n t u) (hw : w.Sound) (he : w.Exact) :
    w.content t = { w.content u with code := (w.content t).code } := by
  induction h with
  | here _ => rfl
  | through ht _ ih =>
    rw [hw.eq_toTrampoline he ht, Descriptor.toTrampoline, ih]

/-- A cell of a class's table leads to what is declared for the class, if the originals that
it can be a copy of lead to what is declared for the class they were patched for. -/
theorem Fits.endsAt {table : TableRef} (hfits : w.Fits c table) (hw : w.Sound) (he : w.Exact)
    (hk : w.slotOf c name = some k) (ht : (w.tables.get table)[k]? = some t)
    (horiginal : ∀ {g i r o}, w.Resolves g i r → (w.tables.get r.intercepted)[k]? = some t →
      (w.tables.get r.unpatched)[k]? = some o → w.slotOf r.cls name = some k →
      ∃ n u, w.EndsAt n o u ∧ w.declared? r.cls name k = some (w.content u)) :
    ∃ n u, w.EndsAt n t u ∧ w.declared? c name k = some (w.content u) := by
  by_cases hcopied : w.Copied t
  · obtain ⟨g, i, r, j, hr, hj⟩ := hcopied
    obtain ⟨hmem, rfl⟩ := hfits.copies ht hr hj
    have hslot := hw.slotOf_patched hk hr hmem hj
    have hlt := (hw.tabled.unpatched hr).lt hslot
    have ho : (w.tables.get r.unpatched)[j]? = some (w.tables.get r.unpatched)[j] :=
      List.getElem?_eq_getElem hlt
    obtain ⟨n, u, hends, hu⟩ := horiginal hr hj ho hslot
    obtain ⟨n', u', hends', hu'⟩ := hends.of_copyOf (he.related hr hj ho)
    refine ⟨n', u', hends', ?_⟩
    rw [declared?, hfits.stems ht hr hj hk, hu']
    exact hu
  · have hplain := hfits.plain ht hcopied hk
    have hno := isTrampoline_of_declared? hplain
    rw [Descriptor.isTrampoline, Option.isSome_eq_false_iff, Option.isNone_iff_eq_none] at hno
    exact ⟨0, t, .here hno, hplain⟩

/-- What was replaced leads to what is declared for the class that was patched. -/
theorem Sound.endsAt_unpatched (hw : w.Sound) (he : w.Exact) (hr : w.Resolves g i r)
    (ho : (w.tables.get r.unpatched)[k]? = some o) (hk : w.slotOf r.cls name = some k) :
    ∃ n u, w.EndsAt n o u ∧ w.declared? r.cls name k = some (w.content u) := by
  -- By induction on the class: originals of originals belong to superclasses.
  induction hindex : r.cls.index using Nat.strongRecOn generalizing g i r o with
  | _ index ih =>
    refine (hw.tabled.unpatched hr).endsAt hw he hk ho fun hr' hmk hok hslot => ?_
    have hlt := hw.lineages.lt (hw.above_unpatched hr ho hr' hmk)
    exact ih _ (hindex ▸ hlt) hr' hok hslot rfl

/-- Following originals from a class's table ends at what is declared for the class. -/
theorem Sound.endsAt (hw : w.Sound) (he : w.Exact) (hc : w.classes.Live c)
    (hk : w.slotOf c name = some k) (ht : w.methodAt c k = some t) :
    ∃ n u, w.EndsAt n t u ∧ w.declared? c name k = some (w.content u) :=
  (hw.tabled.current c hc).endsAt hw he hk ht fun hr _ hok hslot =>
    hw.endsAt_unpatched he hr hok hslot

end Interception.World
