/-
What a call finds.

A class has a cell for every virtual method, and the cell is of one of two sorts.  Either
patching did not make it, and then it holds what is declared for the class; or it is a copy
from the one class of the lineage that was patched, and if it is a trampoline then what it
stands for is what is declared for the class, in a cell that never changes.  That one class
is also what the lookup of rows leads to, so the trampoline and the handler belong
together, and what it stands for passes both checks of a reflective call made by the
handler.
-/
import Interception.Proofs.Originals

namespace Interception.World

variable {β : Type} {w w' : World β} {v : VmRef} {c : ClassRef} {g : RegistryRef} {i k : Nat}
  {r : Resolution} {name : String} {t o : CellRef}

/-! ### Rows on a lineage -/

/-- Where rows are not stacked, the nearest row is the one the lineage was patched under. -/
theorem Sound.interceptionOf (hw : w.Sound) (hu : w.Unstacked) (hc : w.Registered v c)
    (hr : w.Resolves g i r) (hmem : r.cls ∈ w.lineage c) :
    g = (w.coreOf v).registry ∧ w.interceptionOf g c = some (i, r) := by
  have hg := hw.homes.registry hc hr hmem
  refine ⟨hg, interceptionOf_eq_some.mpr ⟨?_, hr, hmem⟩⟩
  have hown := hw.filled.own hr
  rw [hg] at hown ⊢
  have hsome : (w.nearestEntry (w.coreOf v).registry c).isSome = true := by
    rw [nearestEntry, List.findSome?_isSome_iff]
    exact ⟨r.cls, hmem, by rw [hown]; rfl⟩
  obtain ⟨j, hj⟩ := Option.isSome_iff_exists.mp hsome
  obtain ⟨a, ha, hja⟩ := nearestEntry_eq_some hj
  -- Two classes of the lineage with rows of their own are one.
  have hsame : a = r.cls := by
    rcases hw.lineages.comparable ha hmem with heq | hbelow | hbelow
    · exact heq
    · have hnone := hu v r.cls a (hw.homes.upward hc hmem) (by rw [hown]; rfl) hbelow
      rw [hja] at hnone
      cases hnone
    · have hnone := hu v a r.cls (hw.homes.upward hc ha) (by rw [hja]; rfl) hbelow
      rw [hown] at hnone
      cases hnone
  rw [hsame, hown] at hja
  rw [hj, hja]

/-- A lineage without rows was not patched. -/
theorem Sound.not_patched (hw : w.Sound) (hc : w.Registered v c)
    (hfree : ∀ a ∈ w.lineage c, w.ownEntry (w.coreOf v).registry a = none)
    (hr : w.Resolves g i r) : r.cls ∉ w.lineage c := by
  intro hmem
  have hown := hw.filled.own hr
  rw [hw.homes.registry hc hr hmem, hfree r.cls hmem] at hown
  cases hown

/-! ### Cells -/

/-- A class has a cell for every method that it has a slot for. -/
theorem Sound.methodAt (hw : w.Sound) (hc : w.classes.Live c) (hk : w.slotOf c name = some k) :
    ∃ t, w.methodAt c k = some t := by
  have hlt : k < (w.tableOf c).length := (hw.tabled.current c hc).lt hk
  exact ⟨_, List.getElem?_eq_getElem hlt⟩

/-- A cell that is no copy holds what is declared. -/
theorem Sound.declared_plain (hw : w.Sound) (hc : w.classes.Live c)
    (hk : w.slotOf c name = some k) (ht : w.methodAt c k = some t) (hplain : ¬ w.Copied t) :
    w.declared? c name k = some (w.content t) :=
  (hw.tabled.current c hc).plain ht hplain hk

/-- A class whose lineage was not patched has no copies. -/
theorem Sound.not_copied (hw : w.Sound) (hc : w.classes.Live c)
    (hfree : ∀ {g i r}, w.Resolves g i r → r.cls ∉ w.lineage c)
    (ht : w.methodAt c k = some t) : ¬ w.Copied t := by
  rintro ⟨g, i, r, j, hr, hj⟩
  exact hfree hr ((hw.tabled.current c hc).copies ht hr hj).1

/-- What a copy is a copy of. -/
structure CopyAt (w : World β) (c : ClassRef) (k : Nat) (t o : CellRef) (g : RegistryRef)
    (i : Nat) (r : Resolution) : Prop where
  resolves : w.Resolves g i r
  above : r.cls ∈ w.lineage c
  copy : (w.tables.get r.intercepted)[k]? = some t
  original : (w.tables.get r.unpatched)[k]? = some o

/-- A copy in a class's table has its original in the same slot of the class that was
patched. -/
theorem Sound.copyAt (hw : w.Sound) (hc : w.classes.Live c) (ht : w.methodAt c k = some t)
    (hcopied : w.Copied t) : ∃ o g i r, w.CopyAt c k t o g i r := by
  obtain ⟨g, i, r, j, hr, hj⟩ := hcopied
  obtain ⟨hmem, rfl⟩ := (hw.tabled.current c hc).copies ht hr hj
  obtain ⟨name, hname⟩ :=
    (hw.tabled.intercepted hr).named (List.getElem?_eq_some_iff.mp hj).1
  have hlt := (hw.tabled.unpatched hr).lt hname
  exact ⟨_, g, i, r, hr, hmem, hj, List.getElem?_eq_getElem hlt⟩

/-- The original holds what is declared for the class. -/
theorem CopyAt.declared (h : w.CopyAt c k t o g i r) (hw : w.Sound) (hu : w.Unstacked)
    (hc : w.classes.Live c) (hk : w.slotOf c name = some k) (ht : w.methodAt c k = some t) :
    w.declared? c name k = some (w.content o) := by
  obtain ⟨name', hname'⟩ :=
    (hw.tabled.intercepted h.resolves).named (List.getElem?_eq_some_iff.mp h.copy).1
  have hsame : name' = name :=
    hw.lineages.distinct (hw.lineages.slots_of_mem_lineage h.above hname') hk
  rw [hsame] at hname'
  have hplain := hw.not_copied_unpatched hu h.resolves h.original
  have horiginal := (hw.tabled.unpatched h.resolves).plain h.original hplain hname'
  rw [declared?, (hw.tabled.current c hc).stems ht h.resolves h.copy hk]
  exact horiginal

/-- A trampoline stands for its original. -/
theorem CopyAt.stands (h : w.CopyAt c k t o g i r) (hw : w.Sound) (hu : w.Unstacked)
    (hf : w.Faithful) (ht : (w.content t).isTrampoline = true) :
    w.content t = (w.content o).toTrampoline o :=
  (hf.of_isTrampoline hw hu ht h.resolves h.copy h.original).2

/-- A trampoline in a class's table, with what it replaced. -/
theorem Sound.copyAt_of_replaced (hw : w.Sound) (hu : w.Unstacked) (hf : w.Faithful)
    (hc : w.classes.Live c) (ht : w.methodAt c k = some t)
    (ho : (w.content t).replaced? = some o) : ∃ g i r, w.CopyAt c k t o g i r := by
  have htramp := Descriptor.isTrampoline_of_replaced? ho
  obtain ⟨o', g, i, r, hcopy⟩ := hw.copyAt hc ht (hw.tabled.copied htramp)
  have hsame := hcopy.stands hw hu hf htramp
  rw [hsame] at ho
  have ho' : some o' = some o := ho
  cases ho'
  exact ⟨g, i, r, hcopy⟩

/-! ### The checks of a reflective call -/

/-- Instances of a class belong to whatever class declared its methods. -/
theorem derivesFrom_declared {d : Descriptor β} (hd : w.declared? c name k = some d) :
    w.derivesFrom c d.owner = true := by
  rw [declared?, Option.map_eq_some_iff] at hd
  obtain ⟨x, hx, rfl⟩ := hd
  rw [derivesFrom, List.any_eq_true]
  exact ⟨x.1, (declaration?_eq_some hx).1, beq_self_eq_true _⟩

/-- The handler class of an entry is trusted. -/
theorem Sound.isHandlerClass (hw : w.Sound) (hr : w.Resolves g i r) :
    (w.registries.get g).isHandlerClass (w.className r.handlerClass) = true := by
  obtain ⟨u, -, -, hname⟩ := hw.filled.handler hr
  have hlt := hr.lt_size
  have hentry : (w.registries.get g).entries[i] = w.entry g i := by
    rw [World.entry, Registry.entry, Array.getD_eq_getD_getElem?, Array.getElem?_eq_getElem hlt]
    rfl
  rw [Registry.isHandlerClass, Array.any_eq_true]
  refine ⟨i, hlt, ?_⟩
  rw [hentry, hname]
  exact beq_self_eq_true _

end Interception.World
