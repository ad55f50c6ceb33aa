/-
What a table in the making looks like.

A layout is *ordered* if slots and positions of the table correspond: every name has a
position that is there, every position has a name, and no two names share one.  Declaring
a method keeps that.  `Laid` says what became of a layout after some declarations: a name
declared among them stands in its slot with the last of its declarations, in a cell that
was not there before, and any other name is where it was, with the cell it had.

Copying a table makes one new cell for each old one, in order, and the copies are read
off the cells copied.
-/
import Interception.Proofs.Operations

namespace Interception

variable {β : Type}

/-! ### The last declaration of a name -/

/-- The declaration of a name that counts: the last. -/
def lastNamed {γ : Type} (ds : List (MethodDecl γ)) (name : String) : Option (MethodDecl γ) :=
  ds.reverse.find? fun d => d.name == name

theorem lastNamed_append {γ : Type} (ds : List (MethodDecl γ)) (d : MethodDecl γ)
    (name : String) :
    lastNamed (ds ++ [d]) name = if d.name = name then some d else lastNamed ds name := by
  rw [lastNamed, List.reverse_append, List.reverse_singleton, List.singleton_append,
    List.find?_cons]
  by_cases h : d.name = name
  · simp [h]
  · rw [beq_eq_false_iff_ne.mpr h, if_neg h]
    rfl

theorem name_of_lastNamed {γ : Type} {ds : List (MethodDecl γ)} {name : String}
    {d : MethodDecl γ} (h : lastNamed ds name = some d) : d.name = name := by
  have hp := List.find?_some h
  exact beq_iff_eq.mp hp

theorem lastNamed_isSome {γ : Type} (ds : List (MethodDecl γ)) (name : String) :
    (lastNamed ds name).isSome = ds.any (·.name == name) := by
  rw [lastNamed, List.isSome_find?, List.any_reverse]

/-- The descriptor a declared method gets. -/
def MethodDecl.descriptor (m : MethodDecl (Option β)) (owner : Nat) (ownerName : String)
    (slot : Nat) : Descriptor β :=
  { name := m.name, owner, ownerName, slot, visibility := m.visibility
    code := Code.ofBody? m.body }

theorem MethodDecl.isTrampoline_descriptor (m : MethodDecl (Option β)) (owner : Nat)
    (ownerName : String) (slot : Nat) :
    (m.descriptor owner ownerName slot).isTrampoline = false := by
  cases h : m.body <;> simp [descriptor, Descriptor.isTrampoline, Descriptor.replaced?, h,
    Code.ofBody?]

/-! ### Layouts -/

namespace Layout

/-- Names and positions of the table correspond. -/
structure Ordered (l : Layout β) : Prop where
  lt : ∀ {name k}, l.slots.lookup name = some k → k < l.table.length
  named : ∀ {k}, k < l.table.length → ∃ name, l.slots.lookup name = some k
  inj : ∀ {name name' k}, l.slots.lookup name = some k → l.slots.lookup name' = some k →
    name = name'

/-- What became of a layout after these declarations. -/
structure Laid (number : Nat) (owner : String) (start : Layout β)
    (ds : List (MethodDecl (Option β))) (l : Layout β) : Prop extends Ordered l where
  cells : start.cells.Keeps l.cells
  kept : ∀ {name k}, start.slots.lookup name = some k → l.slots.lookup name = some k
  slotted : ∀ name, (l.slots.lookup name).isSome = true ↔
    (start.slots.lookup name).isSome = true ∨ (lastNamed ds name).isSome = true
  fresh : ∀ {name k d}, l.slots.lookup name = some k → lastNamed ds name = some d →
    ∃ m, l.table[k]? = some m ∧ l.cells.Live m ∧ ¬ start.cells.Live m ∧
      l.cells.get m = d.descriptor number owner k
  inherited : ∀ {name k}, l.slots.lookup name = some k → lastNamed ds name = none →
    start.slots.lookup name = some k ∧ l.table[k]? = start.table[k]?

variable {number : Nat} {owner : String} {start l : Layout β}
  {ds : List (MethodDecl (Option β))}

theorem Laid.nil (h : start.Ordered) : Laid number owner start [] start where
  toOrdered := h
  cells := .refl _
  kept h := h
  slotted name := by simp [lastNamed]
  fresh _ hd := by cases hd
  inherited h _ := ⟨h, rfl⟩

/-- Declaring a method puts a new cell in the one position of its name: the slot the name has,
or the end of the table. -/
structure Puts (number : Nat) (owner : String) (l : Layout β) (m : MethodDecl (Option β))
    (k : Nat) (l' : Layout β) : Prop where
  cells : l'.cells = l.cells.add (m.descriptor number owner k)
  slot : l'.slots.lookup m.name = some k
  slots : ∀ {name}, m.name ≠ name → l'.slots.lookup name = l.slots.lookup name
  kept : ∀ {j}, l.slots.lookup m.name = some j → j = k
  alone : ∀ {name}, l.slots.lookup name = some k → m.name = name
  cell : l'.table[k]? = some l.cells.next
  table : ∀ {j}, j ≠ k → l'.table[j]? = l.table[j]?

/-- A name that has a slot keeps it. -/
theorem Ordered.puts_of_some (h : l.Ordered) {m : MethodDecl (Option β)} {k : Nat}
    (hk : l.slots.lookup m.name = some k) :
    Puts number owner l m k (l.declare number owner m) := by
  have hlt : k < l.table.length := h.lt hk
  have heq : l.declare number owner m =
      ⟨l.cells.add (m.descriptor number owner k), l.table.set k l.cells.next, l.slots⟩ := by
    simp only [declare, hk, Option.getD_some, if_pos hlt, Option.isSome_some, if_true]
    rfl
  rw [heq]
  exact
    { cells := rfl
      slot := hk
      slots := fun _ => rfl
      kept := fun hj => Option.some.inj (hj.symm.trans hk)
      alone := fun hname => h.inj hk hname
      cell := List.getElem?_set_self hlt
      table := fun hj => List.getElem?_set_ne (Ne.symm hj) }

/-- A new name gets a slot at the end. -/
theorem Ordered.puts_of_none (h : l.Ordered) {m : MethodDecl (Option β)}
    (hk : l.slots.lookup m.name = none) :
    Puts number owner l m l.table.length (l.declare number owner m) := by
  have heq : l.declare number owner m =
      ⟨l.cells.add (m.descriptor number owner l.table.length), l.table ++ [l.cells.next],
        (m.name, l.table.length) :: l.slots⟩ := by
    simp only [declare, hk, Option.getD_none, if_neg (Nat.lt_irrefl _), Option.isSome_none]
    rfl
  rw [heq]
  exact
    { cells := rfl
      slot := List.lookup_cons_self
      slots := fun hn => by rw [List.lookup_cons, beq_eq_false_iff_ne.mpr (Ne.symm hn)]
      kept := fun hj => by rw [hk] at hj; cases hj
      alone := fun hname => absurd (h.lt hname) (Nat.lt_irrefl _)
      cell := List.getElem?_concat_length
      table := fun {j} hj => by
        rcases Nat.lt_or_gt_of_ne hj with hlt | hgt
        · exact List.getElem?_append_left hlt
        · have hend : l.table.length + 1 ≤ j := hgt
          rw [List.getElem?_eq_none (by simpa using hend),
            List.getElem?_eq_none (Nat.le_of_lt hgt)] }

theorem Ordered.exists_puts (h : l.Ordered) (m : MethodDecl (Option β)) :
    ∃ k, Puts number owner l m k (l.declare number owner m) := by
  cases hk : l.slots.lookup m.name with
  | some k => exact ⟨k, h.puts_of_some hk⟩
  | none => exact ⟨_, h.puts_of_none hk⟩

namespace Puts

variable {l' : Layout β} {m : MethodDecl (Option β)} {k : Nat}

/-- A name has the new position, or it is another name and has the slot it had. -/
theorem slot_cases (hp : Puts number owner l m k l') {name : String} {j : Nat}
    (hj : l'.slots.lookup name = some j) :
    (m.name = name ∧ j = k) ∨ (m.name ≠ name ∧ j ≠ k ∧ l.slots.lookup name = some j) := by
  by_cases hn : m.name = name
  · subst hn
    exact Or.inl ⟨rfl, Option.some.inj (hj.symm.trans hp.slot)⟩
  · rw [hp.slots hn] at hj
    exact Or.inr ⟨hn, fun hjk => hn (hp.alone (hjk ▸ hj)), hj⟩

theorem lt_iff (hp : Puts number owner l m k l') {j : Nat} (hj : j ≠ k) :
    j < l'.table.length ↔ j < l.table.length := by
  rw [← Nat.not_le, ← Nat.not_le, ← List.getElem?_eq_none_iff, ← List.getElem?_eq_none_iff,
    hp.table hj]

theorem ordered (hp : Puts number owner l m k l') (h : l.Ordered) : l'.Ordered where
  lt {name j} hj := by
    rcases hp.slot_cases hj with ⟨-, rfl⟩ | ⟨-, hjk, hold⟩
    · exact (List.getElem?_eq_some_iff.mp hp.cell).1
    · exact (hp.lt_iff hjk).mpr (h.lt hold)
  named {j} hj := by
    by_cases hjk : j = k
    · exact ⟨m.name, hjk ▸ hp.slot⟩
    · obtain ⟨name, hname⟩ := h.named ((hp.lt_iff hjk).mp hj)
      have hn : m.name ≠ name := by
        rintro rfl
        exact hjk (hp.kept hname)
      exact ⟨name, (hp.slots hn).trans hname⟩
  inj {name name' j} hj hj' := by
    rcases hp.slot_cases hj with ⟨rfl, rfl⟩ | ⟨-, hjk, hold⟩
    · rcases hp.slot_cases hj' with ⟨rfl, -⟩ | ⟨-, hne, -⟩
      · rfl
      · exact absurd rfl hne
    · rcases hp.slot_cases hj' with ⟨-, rfl⟩ | ⟨-, -, hold'⟩
      · exact absurd rfl hjk
      · exact h.inj hold hold'

end Puts

/-- One more declaration.  It counts for its own name, and for no other. -/
theorem Laid.puts (h : Laid number owner start ds l) {m : MethodDecl (Option β)} {k : Nat}
    {l' : Layout β} (hp : Puts number owner l m k l') :
    Laid number owner start (ds ++ [m]) l' where
  toOrdered := hp.ordered h.toOrdered
  cells := by
    rw [hp.cells]
    exact h.cells.trans (Store.keeps_add l.cells _)
  kept {name j} hj := by
    have hkept := h.kept hj
    by_cases hn : m.name = name
    · subst hn
      rw [hp.kept hkept]
      exact hp.slot
    · exact (hp.slots hn).trans hkept
  slotted name := by
    rw [lastNamed_append]
    by_cases hn : m.name = name
    · subst hn
      simp [hp.slot]
    · rw [hp.slots hn, h.slotted, if_neg hn]
  fresh {name j d} hj hd := by
    rw [lastNamed_append] at hd
    rw [hp.cells]
    rcases hp.slot_cases hj with ⟨hn, rfl⟩ | ⟨hn, hjk, hold⟩
    · rw [if_pos hn] at hd
      cases hd
      refine ⟨l.cells.next, hp.cell, Store.live_next_add _ _, ?_, Store.get_add_next _ _⟩
      exact fun hlive => l.cells.not_live_next (h.cells _ hlive).1
    · rw [if_neg hn] at hd
      obtain ⟨c, hc, hlive, hnew, hget⟩ := h.fresh hold hd
      exact ⟨c, (hp.table hjk).trans hc, hlive.add _, hnew,
        (Store.keeps_add l.cells _ c hlive).2.trans hget⟩
  inherited {name j} hj hd := by
    rw [lastNamed_append] at hd
    rcases hp.slot_cases hj with ⟨hn, rfl⟩ | ⟨hn, hjk, hold⟩
    · rw [if_pos hn] at hd
      cases hd
    · rw [if_neg hn] at hd
      obtain ⟨hstart, htable⟩ := h.inherited hold hd
      exact ⟨hstart, (hp.table hjk).trans htable⟩

theorem Laid.declare (h : Laid number owner start ds l) (m : MethodDecl (Option β)) :
    Laid number owner start (ds ++ [m]) (l.declare number owner m) := by
  obtain ⟨k, hp⟩ := h.toOrdered.exists_puts m
  exact h.puts hp

/-- What became of a layout after all its declarations. -/
theorem laid_foldl (h : start.Ordered) (ds : List (MethodDecl (Option β))) :
    Laid number owner start ds (ds.foldl (Layout.declare number owner) start) := by
  have key : ∀ (rest pre : List (MethodDecl (Option β))) (l : Layout β),
      Laid number owner start pre l →
      Laid number owner start (pre ++ rest) (rest.foldl (Layout.declare number owner) l) := by
    intro rest
    induction rest with
    | nil =>
      intro pre l hl
      rw [List.append_nil]
      exact hl
    | cons m rest ih =>
      intro pre l hl
      have hstep := ih (pre ++ [m]) _ (hl.declare m)
      rw [List.append_assoc, List.singleton_append] at hstep
      exact hstep
  exact key ds [] start (.nil h)

end Layout

/-! ### Copies -/

/-- What a copy of a cell under a row holds. -/
def Row.copyOf (row : Row) (d : Descriptor β) (m : CellRef) : Descriptor β :=
  if row.intercepts d.name then d.toTrampoline m else d

@[simp] theorem Row.slot_copyOf (row : Row) (d : Descriptor β) (m : CellRef) :
    (row.copyOf d m).slot = d.slot := by
  unfold copyOf
  split <;> rfl

@[simp] theorem Row.name_copyOf (row : Row) (d : Descriptor β) (m : CellRef) :
    (row.copyOf d m).name = d.name := by
  unfold copyOf
  split <;> rfl

@[simp] theorem Row.owner_copyOf (row : Row) (d : Descriptor β) (m : CellRef) :
    (row.copyOf d m).owner = d.owner := by
  unfold copyOf
  split <;> rfl

@[simp] theorem Row.ownerName_copyOf (row : Row) (d : Descriptor β) (m : CellRef) :
    (row.copyOf d m).ownerName = d.ownerName := by
  unfold copyOf
  split <;> rfl

@[simp] theorem Row.visibility_copyOf (row : Row) (d : Descriptor β) (m : CellRef) :
    (row.copyOf d m).visibility = d.visibility := by
  unfold copyOf
  split <;> rfl

theorem Row.code_copyOf (row : Row) (d : Descriptor β) (m : CellRef) :
    (row.copyOf d m).code = if d.name ∈ row.methods then .trampoline m else d.code := by
  simp only [copyOf, ← Row.intercepts_iff]
  split <;> rfl

/-- A copy of a trampoline is one. -/
theorem Row.isTrampoline_copyOf {row : Row} {d : Descriptor β} {m : CellRef}
    (h : d.isTrampoline = true) : (row.copyOf d m).isTrampoline = true := by
  unfold copyOf
  split
  · rfl
  · exact h

theorem length_copyTable (row : Row) (ms : List CellRef) :
    ∀ cells : Store .cell (Descriptor β), (copyTable row cells ms).1.length = ms.length := by
  induction ms with
  | nil => exact fun cells => rfl
  | cons m rest ih => exact fun cells => congrArg (· + 1) (ih _)

/-- The copies are new cells, one after the other. -/
theorem copyTable_getElem? (row : Row) (ms : List CellRef) :
    ∀ (cells : Store .cell (Descriptor β)) (k : Nat), k < ms.length →
      (copyTable row cells ms).1[k]? = some ⟨cells.size + k⟩ := by
  induction ms with
  | nil => exact fun cells k hk => absurd hk (Nat.not_lt_zero k)
  | cons m rest ih =>
    intro cells k hk
    cases k with
    | zero => rfl
    | succ k =>
      have hstep := ih (cells.add (row.copyOf (cells.get m) m)) k (Nat.lt_of_succ_lt_succ hk)
      rw [Store.size_add, Nat.add_assoc, Nat.add_comm 1 k] at hstep
      exact hstep

theorem size_copyTable (row : Row) (ms : List CellRef) :
    ∀ cells : Store .cell (Descriptor β),
      (copyTable row cells ms).2.size = cells.size + ms.length := by
  induction ms with
  | nil => exact fun cells => rfl
  | cons m rest ih =>
    intro cells
    have hstep := ih (cells.add (row.copyOf (cells.get m) m))
    rw [Store.size_add] at hstep
    rw [List.length_cons, ← Nat.add_assoc, Nat.add_right_comm]
    exact hstep

/-- A copy is read off the cell it is a copy of. -/
theorem get_copyTable (row : Row) (ms : List CellRef) :
    ∀ (cells : Store .cell (Descriptor β)) (k : Nat) (m : CellRef), ms[k]? = some m →
      (∀ a ∈ ms, cells.Live a) →
      (copyTable row cells ms).2.get ⟨cells.size + k⟩ = row.copyOf (cells.get m) m := by
  induction ms with
  | nil =>
    intro cells k m hk _
    cases hk
  | cons a rest ih =>
    intro cells k m hk hlive
    have hadd := Store.keeps_add cells (row.copyOf (cells.get a) a)
    have hrest := World.keeps_copyTable row rest (cells.add (row.copyOf (cells.get a) a))
    cases k with
    | zero =>
      cases hk
      have hnext := Store.get_add_next cells (row.copyOf (cells.get a) a)
      exact (hrest _ (Store.live_next_add _ _)).2.trans hnext
    | succ k =>
      have hm : m ∈ rest := List.mem_of_getElem? hk
      have hstep := ih (cells.add (row.copyOf (cells.get a) a)) k m hk
        fun b hb => (hadd b (hlive b (List.mem_cons_of_mem _ hb))).1
      rw [(hadd m (hlive m (List.mem_cons_of_mem _ hm))).2, Store.size_add, Nat.add_assoc,
        Nat.add_comm 1 k] at hstep
      exact hstep

end Interception
