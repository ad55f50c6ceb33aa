/-
References and the stores they point into.

Classes, descriptor cells, dispatch tables, objects, registries and machines all
have an identity that outlives any change to their content: a method handle keeps
pointing at the same cell while the cell is overwritten, and two classes of one
name are still two classes.  So each of them lives in a store, and everything else
holds a reference.  A reference is a position, tagged with what it points at;
equality of references is identity.

A store only grows.  `get` is total: a position that was never handed out reads as
the default record, so no operation has to carry a proof that its references are
live.  The lemmas say what each operation does to `get`, and nothing else about
the representation is used elsewhere.
-/
namespace Interception

/-- What a reference can point at. -/
inductive Kind where
  | cls
  | cell
  | table
  | object
  | registry
  | vm
  deriving DecidableEq, Repr

/-- A position in the store of one kind of thing. -/
structure Ref (k : Kind) where
  index : Nat
  deriving DecidableEq, Repr, Inhabited

/-- A class, as opposed to the number it has within one machine. -/
abbrev ClassRef := Ref .cls
/-- A descriptor cell: what a method handle points at. -/
abbrev CellRef := Ref .cell
/-- A dispatch table. -/
abbrev TableRef := Ref .table
/-- An object. -/
abbrev ObjectRef := Ref .object
/-- An interception registry. -/
abbrev RegistryRef := Ref .registry
/-- A virtual machine. -/
abbrev VmRef := Ref .vm

theorem Ref.ext_index {k : Kind} {r s : Ref k} (h : r.index = s.index) : r = s := by
  cases r; cases s; simp_all

/-- The things of one kind, in the order they were made. -/
structure Store (k : Kind) (α : Type) where
  items : Array α := #[]

namespace Store

variable {k : Kind} {α : Type}

/-- How many things there are. -/
def size (s : Store k α) : Nat := s.items.size

/-- The reference points at something that was made. -/
def Live (s : Store k α) (r : Ref k) : Prop := r.index < s.size

instance (s : Store k α) (r : Ref k) : Decidable (s.Live r) :=
  inferInstanceAs (Decidable (r.index < s.size))

/-- The current content, the default record for a reference never handed out. -/
def get [Inhabited α] (s : Store k α) (r : Ref k) : α := s.items.getD r.index default

/-- The reference the next `add` will hand out. -/
def next (s : Store k α) : Ref k := ⟨s.size⟩

/-- Make one more thing. -/
def add (s : Store k α) (a : α) : Store k α := ⟨s.items.push a⟩

/-- Change the content a reference points at. -/
def modify (s : Store k α) (r : Ref k) (f : α → α) : Store k α := ⟨s.items.modify r.index f⟩

/-- Replace the content a reference points at. -/
def set (s : Store k α) (r : Ref k) (a : α) : Store k α := s.modify r fun _ => a

/-- Every reference handed out so far, oldest first. -/
def refs (s : Store k α) : List (Ref k) := (List.range s.size).map Ref.mk

/-! ### Sizes -/

@[simp] theorem size_empty : (⟨#[]⟩ : Store k α).size = 0 := rfl

@[simp] theorem size_add (s : Store k α) (a : α) : (s.add a).size = s.size + 1 := by
  simp [size, add]

@[simp] theorem size_modify (s : Store k α) (r : Ref k) (f : α → α) :
    (s.modify r f).size = s.size := by
  simp [size, modify]

@[simp] theorem size_set (s : Store k α) (r : Ref k) (a : α) : (s.set r a).size = s.size :=
  size_modify ..

theorem Live.add {s : Store k α} {r : Ref k} (h : s.Live r) (a : α) : (s.add a).Live r := by
  simp only [Live, size_add] at *; omega

theorem live_next_add (s : Store k α) (a : α) : (s.add a).Live s.next := by
  simp [Live, next]

theorem not_live_next (s : Store k α) : ¬ s.Live s.next := by
  simp [Live, next]

@[simp] theorem live_modify (s : Store k α) (r t : Ref k) (f : α → α) :
    (s.modify r f).Live t ↔ s.Live t := by
  simp [Live]

@[simp] theorem live_set (s : Store k α) (r t : Ref k) (a : α) :
    (s.set r a).Live t ↔ s.Live t :=
  live_modify ..

/-! ### Contents -/

variable [Inhabited α]

/-- Old references keep their content when something is added. -/
theorem get_add_of_live {s : Store k α} {r : Ref k} (h : s.Live r) (a : α) :
    (s.add a).get r = s.get r := by
  have h' : r.index < s.items.size := h
  simp [get, add, Array.getD_eq_getD_getElem?, Array.getElem?_push, Nat.ne_of_lt h']

/-- The new reference has the new content. -/
@[simp] theorem get_add_next (s : Store k α) (a : α) : (s.add a).get s.next = a := by
  simp [get, add, next, size, Array.getD_eq_getD_getElem?]

theorem get_of_not_live {s : Store k α} {r : Ref k} (h : ¬ s.Live r) : s.get r = default := by
  have h' : s.items.size ≤ r.index := Nat.le_of_not_lt h
  simp [get, Array.getD_eq_getD_getElem?, Array.getElem?_eq_none h']

/-- A change is seen through its own reference. -/
theorem get_modify_self {s : Store k α} {r : Ref k} (h : s.Live r) (f : α → α) :
    (s.modify r f).get r = f (s.get r) := by
  have h' : r.index < s.items.size := h
  simp [get, modify, Array.getD_eq_getD_getElem?, h', Array.getElem_modify_self]

/-- A change is not seen through any other reference. -/
theorem get_modify_of_ne {s : Store k α} {r t : Ref k} (h : t ≠ r) (f : α → α) :
    (s.modify r f).get t = s.get t := by
  have h' : r.index ≠ t.index := fun e => h (Ref.ext_index e.symm)
  simp [get, modify, Array.getD_eq_getD_getElem?, Array.getElem?_modify, h']

/-- A part that a change leaves alone reads the same through every reference. -/
theorem part_get_modify {γ : Type} (part : α → γ) {f : α → α} (hf : ∀ a, part (f a) = part a)
    (s : Store k α) (r t : Ref k) : part ((s.modify r f).get t) = part (s.get t) := by
  by_cases htr : t = r
  · by_cases h : s.Live t
    · subst htr
      rw [get_modify_self h, hf]
    · rw [get_of_not_live h, get_of_not_live (by simpa using h)]
  · rw [get_modify_of_ne htr]

theorem get_set_self {s : Store k α} {r : Ref k} (h : s.Live r) (a : α) :
    (s.set r a).get r = a :=
  get_modify_self h _

theorem get_set_of_ne {s : Store k α} {r t : Ref k} (h : t ≠ r) (a : α) :
    (s.set r a).get t = s.get t :=
  get_modify_of_ne h _

end Store

end Interception
