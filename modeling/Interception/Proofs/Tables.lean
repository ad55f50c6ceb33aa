/-
What the tables of a class hold.

A class has the table it was linked with, and, if it was patched, the copy patching made;
a class-wide window switches between the two.  `Fits` is what is true of both at every
moment: their positions are the class's slots, each cell names its own position, a copied
cell stems from a class on the lineage, stands where it did there and is for the declaration
it was for there, and any other cell holds what the class declares or inherits under that
name.

Only copies are ever trampolines, and windows write into nothing but trampolines, so a cell
that is not a copy never changes.  What a window writes into a copy comes from the same
position of another table, which is why even inside windows a cell names its own position.
-/
import Interception.Proofs.Homes

namespace Interception.World

variable {β : Type} {w w' : World β} {v : VmRef} {c : ClassRef} {g : RegistryRef} {i : Nat}
  {r : Resolution}

/-! ### Declarations -/

/-- The declaration of a name that a class goes by, with the class it is from. -/
def declaration? (w : World β) (c : ClassRef) (name : String) :
    Option (ClassRef × MethodDecl (Option β)) :=
  (w.lineage c).findSome? fun a =>
    (lastNamed (w.classes.get a).declared name).map (a, ·)

/-- The descriptor that declaration gets in a slot. -/
def declared? (w : World β) (c : ClassRef) (name : String) (slot : Nat) :
    Option (Descriptor β) :=
  (w.declaration? c name).map fun x =>
    x.2.descriptor (w.classes.get x.1).number (w.className x.1) slot

theorem findSome?_congr {α γ : Type} {f f' : α → Option γ} {l : List α}
    (h : ∀ a ∈ l, f a = f' a) : l.findSome? f = l.findSome? f' := by
  induction l with
  | nil => rfl
  | cons a rest ih =>
    rw [List.findSome?_cons, List.findSome?_cons, h a List.mem_cons_self,
      ih fun b hb => h b (List.mem_cons_of_mem a hb)]

/-- The declaration is from a class on the lineage. -/
theorem declaration?_eq_some {name : String} {a : ClassRef} {d : MethodDecl (Option β)}
    (h : w.declaration? c name = some (a, d)) :
    a ∈ w.lineage c ∧ lastNamed (w.classes.get a).declared name = some d := by
  obtain ⟨b, hb, hd⟩ := List.exists_of_findSome?_eq_some h
  rw [Option.map_eq_some_iff] at hd
  obtain ⟨d', hd', heq⟩ := hd
  cases heq
  exact ⟨hb, hd'⟩

/-- There is a declaration for every slot. -/
theorem declaration?_isSome (hl : w.Lineages) (hc : w.classes.Live c) {name : String} {k : Nat}
    (hk : w.slotOf c name = some k) : ∃ x, w.declaration? c name = some x := by
  obtain ⟨a, ha, hd⟩ := (hl.slotted name hc).mp (by rw [hk]; rfl)
  rw [Declares, Class.declares, ← lastNamed_isSome, Option.isSome_iff_exists] at hd
  obtain ⟨d, hd⟩ := hd
  rw [← Option.isSome_iff_exists, declaration?, List.findSome?_isSome_iff]
  exact ⟨a, ha, by rw [hd]; rfl⟩

theorem Grows.declaration? (hg : w.Grows w') (hl : w.Lineages) (hc : w.classes.Live c)
    (name : String) : w'.declaration? c name = w.declaration? c name := by
  rw [World.declaration?, World.declaration?, hg.lineage hc]
  refine findSome?_congr fun a ha => ?_
  rw [(hg.classes a (hl.live_of_mem_lineage hc ha)).2.declared]

theorem Grows.declared? (hg : w.Grows w') (hl : w.Lineages) (hc : w.classes.Live c)
    (name : String) (k : Nat) : w'.declared? c name k = w.declared? c name k := by
  rw [World.declared?, World.declared?, hg.declaration? hl hc]
  cases hx : w.declaration? c name with
  | none => rfl
  | some x =>
    have hlive := hl.live_of_mem_lineage hc (declaration?_eq_some hx).1
    rw [Option.map_some, Option.map_some, (hg.classes x.1 hlive).2.number,
      hg.className hlive]

theorem isTrampoline_of_declared? {name : String} {k : Nat} {d : Descriptor β}
    (h : w.declared? c name k = some d) : d.isTrampoline = false := by
  rw [declared?, Option.map_eq_some_iff] at h
  obtain ⟨x, -, rfl⟩ := h
  exact MethodDecl.isTrampoline_descriptor ..

theorem name_of_declared? {name : String} {k : Nat} {d : Descriptor β}
    (h : w.declared? c name k = some d) : d.name = name := by
  rw [declared?, Option.map_eq_some_iff] at h
  obtain ⟨x, hx, rfl⟩ := h
  exact name_of_lastNamed (declaration?_eq_some hx).2

/-! ### Copied cells -/

/-- Patching made the cell. -/
def Copied (w : World β) (m : CellRef) : Prop :=
  ∃ (g : RegistryRef) (i : Nat) (r : Resolution) (k : Nat),
    w.Resolves g i r ∧ (w.tables.get r.intercepted)[k]? = some m

/-- A table of a class. -/
structure Fits (w : World β) (c : ClassRef) (t : TableRef) : Prop where
  live : w.tables.Live t
  lt : ∀ {name k}, w.slotOf c name = some k → k < (w.tables.get t).length
  named : ∀ {k}, k < (w.tables.get t).length → ∃ name, w.slotOf c name = some k
  cells : ∀ {k : Nat} {m : CellRef}, (w.tables.get t)[k]? = some m →
    w.cells.Live m ∧ (w.content m).slot = k
  copies : ∀ {k : Nat} {m : CellRef} {g i r} {j : Nat}, (w.tables.get t)[k]? = some m →
    w.Resolves g i r → (w.tables.get r.intercepted)[j]? = some m → r.cls ∈ w.lineage c ∧ j = k
  stems : ∀ {k : Nat} {m : CellRef} {g i r} {j : Nat} {name}, (w.tables.get t)[k]? = some m →
    w.Resolves g i r → (w.tables.get r.intercepted)[j]? = some m → w.slotOf c name = some k →
    w.declaration? c name = w.declaration? r.cls name
  plain : ∀ {k : Nat} {m : CellRef} {name}, (w.tables.get t)[k]? = some m → ¬ w.Copied m →
    w.slotOf c name = some k → w.declared? c name k = some (w.content m)

theorem Fits.exists_cell {t : TableRef} {name : String} {k : Nat} (h : w.Fits c t)
    (hk : w.slotOf c name = some k) : ∃ m, (w.tables.get t)[k]? = some m :=
  ⟨_, List.getElem?_eq_getElem (h.lt hk)⟩

/-- All tables fit their classes, and only copies are trampolines. -/
structure Tabled (w : World β) : Prop where
  current : ∀ c, w.classes.Live c → w.Fits c (w.classes.get c).table
  intercepted : ∀ {g i r}, w.Resolves g i r → w.Fits r.cls r.intercepted
  unpatched : ∀ {g i r}, w.Resolves g i r → w.Fits r.cls r.unpatched
  apart : ∀ {g i r m}, w.Resolves g i r → m ∈ w.tables.get r.unpatched →
    m ∉ w.tables.get r.intercepted
  copied : ∀ {m}, (w.content m).isTrampoline = true → w.Copied m

namespace Tabled

theorem empty : ({} : World β).Tabled where
  current c hc := absurd hc (Nat.not_lt_zero _)
  intercepted h := absurd h.live (Nat.not_lt_zero _)
  unpatched h := absurd h.live (Nat.not_lt_zero _)
  apart h := absurd h.live (Nat.not_lt_zero _)
  copied h := by cases h

end Tabled

/-- What patching made of a class, and what it left of it, stay as they are. -/
theorem Grows.table_intercepted (hg : w.Grows w') (ht : w.Tabled) (hr : w.Resolves g i r) :
    w'.tables.get r.intercepted = w.tables.get r.intercepted :=
  (hg.tables _ (ht.intercepted hr).live).2

theorem Grows.table_unpatched (hg : w.Grows w') (ht : w.Tabled) (hr : w.Resolves g i r) :
    w'.tables.get r.unpatched = w.tables.get r.unpatched :=
  (hg.tables _ (ht.unpatched hr).live).2

theorem Copied.of_grows {m : CellRef} (h : w.Copied m) (ht : w.Tabled) (hg : w.Grows w') :
    w'.Copied m := by
  obtain ⟨g, i, r, k, hr, hk⟩ := h
  refine ⟨g, i, r, k, hg.resolved hr, ?_⟩
  rw [hg.table_intercepted ht hr]
  exact hk

theorem Copied.live {m : CellRef} (h : w.Copied m) (ht : w.Tabled) : w.cells.Live m := by
  obtain ⟨g, i, r, k, hr, hk⟩ := h
  exact ((ht.intercepted hr).cells hk).1

/-- What keeps a table right: cells keep their positions, cells that are no copies keep
everything, and no old cell becomes a copy. -/
structure Tends (w w' : World β) : Prop where
  grows : w.Grows w'
  slots : ∀ m, w.cells.Live m → (w'.content m).slot = (w.content m).slot
  plain : ∀ m, w.cells.Live m → ¬ w.Copied m → w'.content m = w.content m
  copies : ∀ {g i r} {j : Nat} {m : CellRef}, w.cells.Live m → w'.Resolves g i r →
    (w'.tables.get r.intercepted)[j]? = some m → w.Resolves g i r

theorem Fits.of_tends {t : TableRef} (h : w.Fits c t) (ht : w.Tabled) (hl : w.Lineages)
    (hc : w.classes.Live c) (hw : w.Tends w') : w'.Fits c t := by
  have htable : w'.tables.get t = w.tables.get t := (hw.grows.tables t h.live).2
  have hslot : ∀ name, w'.slotOf c name = w.slotOf c name := fun name =>
    (hw.grows.classes c hc).2.slotOf name
  exact
    { live := (hw.grows.tables t h.live).1
      lt := fun hk => by
        rw [hslot] at hk
        rw [htable]
        exact h.lt hk
      named := fun hk => by
        rw [htable] at hk
        obtain ⟨name, hname⟩ := h.named hk
        exact ⟨name, (hslot name).trans hname⟩
      cells := fun {k m} hk => by
        rw [htable] at hk
        obtain ⟨hlive, hm⟩ := h.cells hk
        exact ⟨hw.grows.cells m hlive, (hw.slots m hlive).trans hm⟩
      copies := fun {k m g i r j} hk hr hj => by
        rw [htable] at hk
        have hr' := hw.copies (h.cells hk).1 hr hj
        rw [hw.grows.table_intercepted ht hr'] at hj
        rw [hw.grows.lineage hc]
        exact h.copies hk hr' hj
      stems := fun {k m g i r j name} hk hr hj hname => by
        rw [htable] at hk
        have hr' := hw.copies (h.cells hk).1 hr hj
        rw [hw.grows.table_intercepted ht hr'] at hj
        rw [hslot] at hname
        have hcls := hl.live_of_mem_lineage hc (h.copies hk hr' hj).1
        rw [hw.grows.declaration? hl hc, hw.grows.declaration? hl hcls]
        exact h.stems hk hr' hj hname
      plain := fun {k m name} hk hm hname => by
        rw [htable] at hk
        have hm' : ¬ w.Copied m := fun hcopied => hm (hcopied.of_grows ht hw.grows)
        rw [hslot] at hname
        rw [hw.grows.declared? hl hc, hw.plain m (h.cells hk).1 hm']
        exact h.plain hk hm' hname }

/-! ### Steps that make no table -/

/-- Nothing is made that a table could hold, and classes have one table of theirs or the
other. -/
structure Turns (w w' : World β) : Prop where
  grows : w.Grows w'
  tables : ∀ c, w'.classes.Live c → w.classes.Live c ∧
    ((w'.classes.get c).table = (w.classes.get c).table ∨
      ∃ g i r, w.Resolves g i r ∧ r.cls = c ∧ ((w'.classes.get c).table = r.intercepted ∨
        (w'.classes.get c).table = r.unpatched))
  slots : ∀ m, (w'.content m).slot = (w.content m).slot
  plain : ∀ m, ¬ w.Copied m → w'.content m = w.content m
  resolves : ∀ {g i r}, w'.Resolves g i r → w.Resolves g i r

/-- What was no copy is none later. -/
theorem Tends.not_copied {m : CellRef} (h : w.Tends w') (ht : w.Tabled) (hm : w.cells.Live m)
    (hcopied : ¬ w.Copied m) : ¬ w'.Copied m := by
  rintro ⟨g, i, r, k, hr, hk⟩
  have hr' := h.copies hm hr hk
  rw [h.grows.table_intercepted ht hr'] at hk
  exact hcopied ⟨g, i, r, k, hr', hk⟩

theorem Tends.refl (w : World β) : w.Tends w :=
  ⟨.refl w, fun _ _ => rfl, fun _ _ _ => rfl, fun _ hr _ => hr⟩

theorem Tends.trans {w'' : World β} (h : w.Tends w') (h' : w'.Tends w'') (ht : w.Tabled)
    (ht' : w'.Tabled) : w.Tends w'' where
  grows := h.grows.trans h'.grows
  slots m hm := (h'.slots m (h.grows.cells m hm)).trans (h.slots m hm)
  plain m hm hcopied := (h'.plain m (h.grows.cells m hm) (h.not_copied ht hm hcopied)).trans
    (h.plain m hm hcopied)
  copies {g i r j m} hm hr hj := by
    have hr' := h'.copies (h.grows.cells m hm) hr hj
    rw [h'.grows.table_intercepted ht' hr'] at hj
    exact h.copies hm hr' hj

theorem Turns.tends (h : w.Turns w') : w.Tends w' where
  grows := h.grows
  slots m _ := h.slots m
  plain m _ hm := h.plain m hm
  copies _ hr _ := h.resolves hr

theorem Turns.trans {w'' : World β} (h : w.Turns w') (h' : w'.Turns w'') (ht : w.Tabled) :
    w.Turns w'' where
  grows := h.grows.trans h'.grows
  tables c hc := by
    obtain ⟨hc', htable⟩ := h'.tables c hc
    refine ⟨(h.tables c hc').1, ?_⟩
    rcases htable with hsame | ⟨g, i, r, hr, hcls, hto⟩
    · rw [hsame]
      exact (h.tables c hc').2
    · exact Or.inr ⟨g, i, r, h.resolves hr, hcls, hto⟩
  slots m := (h'.slots m).trans (h.slots m)
  plain m hm := by
    refine (h'.plain m ?_).trans (h.plain m hm)
    rintro ⟨g, i, r, k, hr, hk⟩
    have hr' := h.resolves hr
    rw [h.grows.table_intercepted ht hr'] at hk
    exact hm ⟨g, i, r, k, hr', hk⟩
  resolves hr := h.resolves (h'.resolves hr)

theorem Tabled.of_turns (h : w.Tabled) (hl : w.Lineages) (ho : w.Orderly) (hw : w.Turns w') :
    w'.Tabled where
  current c hc := by
    obtain ⟨hc', htable⟩ := hw.tables c hc
    rcases htable with hsame | ⟨g, i, r, hr, rfl, hto | hto⟩
    · rw [hsame]
      exact (h.current c hc').of_tends h hl hc' hw.tends
    · rw [hto]
      exact (h.intercepted hr).of_tends h hl hc' hw.tends
    · rw [hto]
      exact (h.unpatched hr).of_tends h hl hc' hw.tends
  intercepted hr :=
    (h.intercepted (hw.resolves hr)).of_tends h hl (ho.live (hw.resolves hr)) hw.tends
  unpatched hr :=
    (h.unpatched (hw.resolves hr)).of_tends h hl (ho.live (hw.resolves hr)) hw.tends
  apart hr hm := by
    have hr' := hw.resolves hr
    rw [hw.grows.table_unpatched h hr'] at hm
    rw [hw.grows.table_intercepted h hr']
    exact h.apart hr' hm
  copied {m} hm := by
    by_cases hcopied : w.Copied m
    · exact hcopied.of_grows h hw.grows
    · rw [hw.plain m hcopied] at hm
      exact absurd (h.copied hm) hcopied

theorem turns_of_classes (hg : w.Grows w') (hcells : w'.cells = w.cells)
    (hclasses : ∀ c, w'.classes.Live c → w.classes.Live c ∧
      (w'.classes.get c).table = (w.classes.get c).table)
    (hres : ∀ {g i r}, w'.Resolves g i r → w.Resolves g i r) : w.Turns w' where
  grows := hg
  tables c hc := ⟨(hclasses c hc).1, Or.inl (hclasses c hc).2⟩
  slots m := by rw [content, hcells, content]
  plain m _ := by rw [content, hcells, content]
  resolves := hres

theorem OnlyObjects.turns (h : w.OnlyObjects w') : w.Turns w' :=
  turns_of_classes (h.toExtends 0).grows h.cells
    (fun c hc => by
      rw [h.classes] at hc ⊢
      exact ⟨hc, rfl⟩)
    fun {g i r} hr => by
      rw [Resolves, h.entry] at hr
      exact hr

theorem turns_publish (w : World β) (v : VmRef) (c : ClassRef) : w.Turns (w.publish v c) :=
  turns_of_classes (extends_publish 0 w v c).grows rfl (fun _ hc => ⟨hc, rfl⟩) fun hr => hr

theorem turns_modifyEntry (w : World β) (g : RegistryRef) (i : Nat) {f : Entry → Entry}
    (hrow : ∀ e, (f e).row = e.row) (hres : ∀ e, (f e).resolution = e.resolution) :
    w.Turns (w.modifyEntry g i f) :=
  turns_of_classes (shifts_modifyEntry w g i hrow hres).grows rfl (fun _ hc => ⟨hc, rfl⟩)
    fun hr => (shifts_modifyEntry w g i hrow hres).resolves.mp hr

/-- Putting one of its tables back into a class. -/
theorem turns_install (ho : w.Orderly) {t : TableRef} (hr : w.Resolves g i r)
    (ht : t = r.intercepted ∨ t = r.unpatched) : w.Turns (w.install r.cls t) where
  grows := (shifts_install w r.cls t).grows
  tables c hc := by
    refine ⟨((shifts_install w r.cls t).liveClasses c).mp hc, ?_⟩
    by_cases hcr : c = r.cls
    · subst hcr
      have htable : ((w.install r.cls t).classes.get r.cls).table = t :=
        congrArg Class.table (Store.get_modify_self (ho.live hr) _)
      refine Or.inr ⟨g, i, r, hr, rfl, ?_⟩
      rw [htable]
      exact ht
    · exact Or.inl (congrArg Class.table (Store.get_modify_of_ne hcr _))
  slots _ := rfl
  plain _ _ := rfl
  resolves hr := (shifts_install w r.cls t).resolves.mp hr

/-- Writing into a copy something from the same position. -/
theorem turns_overwrite (ht : w.Tabled) {m : CellRef} (hm : w.Copied m) {d : Descriptor β}
    (hd : d.slot = (w.content m).slot) : w.Turns (w.overwrite m d) where
  grows := (shifts_overwrite w m d).grows
  tables _ hc := ⟨hc, Or.inl rfl⟩
  slots n := by
    by_cases hn : n = m
    · subst hn
      rw [content_overwrite_self (hm.live ht)]
      exact hd
    · rw [content_overwrite_of_ne hn]
  plain n hn := by
    refine content_overwrite_of_ne ?_ d
    rintro rfl
    exact hn hm
  resolves hr := (shifts_overwrite w m d).resolves.mp hr

theorem Copied.of_turns {m : CellRef} (h : w.Copied m) (ht : w.Tabled) (hw : w.Turns w') :
    w'.Copied m := h.of_grows ht hw.grows

/-- Opening a class-wide window on a copy writes what its position holds otherwise. -/
theorem turns_disarm (ht : w.Tabled) (hl : w.Lineages) (ho : w.Orderly)
    (hr : w.Resolves g i r) {m : CellRef} (hm : w.Copied m) : w.Turns (w.disarm r m) := by
  have hinstall := turns_install ho hr (Or.inr rfl)
  unfold World.disarm
  simp only
  split
  · rename_i plain hplain
    have hslot := ((ht.unpatched hr).cells hplain).2
    exact hinstall.trans (turns_overwrite (ht.of_turns hl ho hinstall)
      (hm.of_turns ht hinstall) hslot) ht
  · exact hinstall

/-- Closing a class-wide window writes back something from the same position. -/
theorem turns_rearm (ht : w.Tabled) (hl : w.Lineages) (ho : w.Orderly)
    (hr : w.Resolves g i r) {m : CellRef} (hm : w.Copied m) {token : Descriptor β}
    (htoken : token.slot = (w.content m).slot) : w.Turns (w.rearm r m token) := by
  have hinstall := turns_install ho hr (Or.inl rfl)
  exact hinstall.trans (turns_overwrite (ht.of_turns hl ho hinstall)
    (hm.of_turns ht hinstall) htoken) ht

end Interception.World
