/-
Slots, tables and layouts fit together.

A class's slots and fields are settled when it is linked.  Its table is not: patching puts
another in its place and class-wide windows switch between the two.  At every moment of a run
on one machine all of them are coherent nevertheless.  The names with a slot are those the
lineage declares, they correspond to the positions of the current table, and the cell in a
position holds the position and its name; and whatever slot or offset a superclass has, the
class has too, for the same method or field.

So a table never changes its length, a call by a name with a slot always finds a method of that
name, and an offset found in a class is good for the instances of every class below it.
-/
import Interception.Proofs.Dispatching
import Interception.Proofs.Naming

namespace Interception

variable {β H α : Type}

/-! ### More may be asked -/

theorem Program.Uses.mono {allowed allowed' : Op β → Prop} {p : Program β H α}
    (hp : p.Uses allowed) (h : ∀ {op}, allowed op → allowed' op) : p.Uses allowed' := by
  induction p with
  | pure a => trivial
  | fail e => trivial
  | panic text => trivial
  | host update next ih => exact fun w k => ih w k (hp w k)
  | call op next ih => exact ⟨h hp.1, fun r => ih r (hp.2 r)⟩

theorem Reached.mono {host : Host β H} {allowed allowed' : Op β → Prop}
    {s : State β (Logged β H)} (hs : Reached host allowed s)
    (h : ∀ {op}, allowed op → allowed' op) : Reached host allowed' s := by
  induction hs with
  | start k => exact .start k
  | registry _ rows ih => exact ih.registry rows
  | machine _ options core hcore ih => exact ih.machine options core hcore
  | run _ p hp ih => exact ih.run p (hp.mono h)

namespace World

variable {w w' : World β} {v : VmRef} {a c : ClassRef} {k : Nat} {name : String} {m : CellRef}

/-- Slots, the current table and the fields of a class fit together, and fit those of its
superclasses. -/
structure Coherent (w : World β) (c : ClassRef) : Prop where
  /-- The names with a slot are those of the virtual methods of the lineage. -/
  slotted : ∀ name, (w.slotOf c name).isSome = true ↔ ∃ a ∈ w.lineage c, w.Declares a name
  /-- Every slot is a position of the current table. -/
  lt : ∀ {name k}, w.slotOf c name = some k → k < (w.tableOf c).length
  /-- Every position is the slot of exactly one name. -/
  named : ∀ {k}, k < (w.tableOf c).length → ∃! name, w.slotOf c name = some k
  /-- The cell in a position holds the position, and the name it is the slot of. -/
  cells : ∀ {k m}, w.methodAt c k = some m →
    (w.content m).slot = k ∧ w.slotOf c (w.content m).name = some k
  slots : ∀ {a name k}, a ∈ w.ancestors c → w.slotOf a name = some k → w.slotOf c name = some k
  fields : ∀ {a}, a ∈ w.ancestors c → (w.classes.get a).fields <+: (w.classes.get c).fields

theorem Named.slots_cohere (h : w.Named) (hw : w.Sound) (hc : w.classes.Live c) : w.Coherent c where
  slotted name := hw.lineages.slotted name hc
  lt hk := (hw.tabled.current c hc).lt hk
  named {k} hk := by
    obtain ⟨name, hname⟩ := (hw.tabled.current c hc).named hk
    exact ⟨name, hname, fun name' hname' => hw.lineages.distinct hname' hname⟩
  cells {k m} hm := by
    have hfits := hw.tabled.current c hc
    obtain ⟨name, hname⟩ := hfits.named (List.getElem?_eq_some_iff.mp hm).1
    refine ⟨(hfits.cells hm).2, ?_⟩
    rw [h.name_of_fits hw.lineages hw.tabled hc hfits hm hname]
    exact hname
  slots ha hk := hw.lineages.slots ha hk
  fields ha := hw.lineages.fields ha

namespace Coherent

/-- A name with a slot has a method of that name in it. -/
theorem methodAt (h : w.Coherent c) (hk : w.slotOf c name = some k) :
    ∃ m, w.methodAt c k = some m ∧ (w.content m).name = name := by
  have hlt : k < (w.tableOf c).length := h.lt hk
  have hm : w.methodAt c k = some (w.tableOf c)[k] := List.getElem?_eq_getElem hlt
  obtain ⟨name', -, hunique⟩ := h.named hlt
  have hname := hunique _ (h.cells hm).2
  exact ⟨_, hm, hname.trans (hunique name hk).symm⟩

theorem fields_of_mem_lineage (h : w.Coherent c) (ha : a ∈ w.lineage c) :
    (w.classes.get a).fields <+: (w.classes.get c).fields := by
  rcases List.mem_cons.mp ha with rfl | ha
  · exact List.prefix_refl _
  · exact h.fields ha

theorem slots_of_mem_lineage (h : w.Coherent c) (ha : a ∈ w.lineage c)
    (hk : w.slotOf a name = some k) : w.slotOf c name = some k := by
  rcases List.mem_cons.mp ha with rfl | ha
  · exact hk
  · exact h.slots ha hk

/-- An offset found in a superclass is found in the class, for the same field. -/
theorem fieldOffset (h : w.Coherent c) (ha : a ∈ w.lineage c) {type : String} {i : Nat}
    (hi : (w.classes.get a).fieldOffset name type = some i) :
    (w.classes.get c).fieldOffset name type = some i ∧ i < (w.classes.get c).fields.length ∧
      (w.classes.get c).fields[i]? = (w.classes.get a).fields[i]? := by
  have hstart := h.fields_of_mem_lineage ha
  have hlt : i < (w.classes.get a).fields.length := (List.findIdx?_eq_some_iff_getElem.mp hi).1
  have hsame := List.prefix_iff_getElem?.mp hstart i hlt
  exact ⟨hstart.findIdx?_eq_some hi, Nat.lt_of_lt_of_le hlt hstart.length_le,
    hsame.trans (List.getElem?_eq_getElem hlt).symm⟩

/-- A position of a superclass's table is for the same name in the class's. -/
theorem same_name (h : w.Coherent c) (h' : w.Coherent a) (ha : a ∈ w.lineage c)
    (hm : w.methodAt a k = some m) :
    ∃ n, w.methodAt c k = some n ∧ (w.content n).name = (w.content m).name :=
  h.methodAt (h.slots_of_mem_lineage ha (h'.cells hm).2)

/-- The slots settle how long the table is. -/
theorem length_eq (h : w.Coherent c) (h' : w'.Coherent c)
    (hslots : ∀ name, w'.slotOf c name = w.slotOf c name) :
    (w'.tableOf c).length = (w.tableOf c).length := by
  have hle : ∀ {x y : World β}, x.Coherent c → y.Coherent c →
      (∀ name, y.slotOf c name = x.slotOf c name) →
      (x.tableOf c).length ≤ (y.tableOf c).length := fun {x y} hx hy hsame => by
    by_contra hlt
    obtain ⟨name, hname, -⟩ := hx.named (Nat.lt_of_not_le hlt)
    rw [← hsame name] at hname
    exact Nat.lt_irrefl _ (hy.lt hname)
  exact Nat.le_antisymm (hle h' h fun name => (hslots name).symm) (hle h h' hslots)

end Coherent

end World

/-! ### Calls -/

section Calls

variable {exec : Executor β H} {s : State β H} {this : ObjectRef} {k : Nat} {name : String}

/-- A call by a name with a slot runs a method of that name. -/
theorem invokeVirtual_finds (h : s.world.Coherent (s.world.classOf this))
    (hk : s.world.slotOf (s.world.classOf this) name = some k) (v : VmRef)
    (args : List Value) : ∃ m, s.world.methodAt (s.world.classOf this) k = some m ∧
      (s.world.content m).name = name ∧
      invokeVirtual exec v this name args s = exec v m this args s ∧
      invokeSlot exec v this k args s = exec v m this args s := by
  obtain ⟨m, hm, hname⟩ := h.methodAt hk
  have hk' : (s.world.classes.get (s.world.classOf this)).slotOf name = some k := hk
  refine ⟨m, hm, hname, ?_, ?_⟩
  · simp only [invokeVirtual, hk', invokeSlot, hm]
  · simp only [invokeSlot, hm]

end Calls

section Reached

variable {host : Host β H} {s : State β (Logged β H)}

/-- **Slots, tables and layouts stay coherent.**  At every moment of a run on one machine with
bodies that run no cell unchecked, every published class is coherent with its superclasses,
and from one moment to any later one its slots, its fields and the length of its table stay.
So a call by a name that has a slot runs a method of that name, and an offset or a slot found
in a class is good, for the same field or name, in every class below it. -/
theorem Reached.coherent
    (hb : ∀ b v this args, (host.body b v this args).Uses fun op => op.IsChecked = true)
    (hs : Reached host (fun op => op.IsChecked = true) s) (hone : s.world.vms.size ≤ 1) :
    (∀ w ∈ s.trail.worlds, ∀ v c, w.Registered v c → w.Coherent c) ∧
    (s.trail.worlds.Pairwise fun later earlier => ∀ v c, earlier.Registered v c →
      later.Registered v c ∧ (later.classes.get c).slots = (earlier.classes.get c).slots ∧
      (later.classes.get c).fields = (earlier.classes.get c).fields ∧
      (later.tableOf c).length = (earlier.tableOf c).length) ∧
    (∀ w ∈ s.trail.worlds, ∀ th h (exec : Executor β H) v this name k args,
      w.objects.Live this → w.slotOf (w.classOf this) name = some k →
      ∃ m, w.methodAt (w.classOf this) k = some m ∧ (w.content m).name = name ∧
        invokeVirtual exec v this name args ⟨w, th, h⟩ = exec v m this args ⟨w, th, h⟩ ∧
        invokeSlot exec v this k args ⟨w, th, h⟩ = exec v m this args ⟨w, th, h⟩) ∧
    ∀ w ∈ s.trail.worlds, ∀ v c a, w.Registered v c → a ∈ w.lineage c →
      (∀ name type i, (w.classes.get a).fieldOffset name type = some i →
        (w.classes.get c).fieldOffset name type = some i ∧
        (w.classes.get c).fields[i]? = (w.classes.get a).fields[i]? ∧
        ∀ o, w.objects.Live o → w.classOf o = c → (w.field? o i).isSome = true) ∧
      ∀ k m, w.methodAt a k = some m →
        ∃ n, w.methodAt c k = some n ∧ (w.content n).name = (w.content m).name := by
  have hlasting := (hs.mono Op.IsChecked.isOrdinary).lasting fun b v this args =>
    (hb b v this args).mono Op.IsChecked.isOrdinary
  have hnamed : ∀ w ∈ s.trail.worlds, w.Sound ∧ w.Named := fun w hw => by
    obtain ⟨th, hat⟩ := Trail.at_of_mem_worlds hw
    obtain ⟨hsound, hnamed⟩ := hs.named hb hat
    exact ⟨hsound, hnamed ((hlasting.preserves hw).grows.alone hone)⟩
  have hcoherent : ∀ w ∈ s.trail.worlds, ∀ c, w.classes.Live c → w.Coherent c :=
    fun w hw c hc => (hnamed w hw).2.slots_cohere (hnamed w hw).1 hc
  refine ⟨fun w hw v c hc => hcoherent w hw c ((hnamed w hw).1.homes.live hc), ?_,
    fun w hw th h exec v this name k args hthis hk => ?_, fun w hw v c a hc ha => ⟨?_, ?_⟩⟩
  · refine hlasting.ordered.imp_of_mem fun {later earlier} hlater hearlier h v c hc => ?_
    have hlive := (hnamed earlier hearlier).1.homes.live hc
    obtain ⟨hlive', halike⟩ := h.grows.classes c hlive
    exact ⟨hc.of_grows h.grows, halike.slots, halike.fields,
      (hcoherent earlier hearlier c hlive).length_eq (hcoherent later hlater c hlive')
        fun name => halike.slotOf name⟩
  · exact invokeVirtual_finds (s := ⟨w, th, h⟩)
      (hcoherent w hw _ ((hnamed w hw).1.peopled.live hthis)) hk v args
  · intro name type i hi
    have hsound := (hnamed w hw).1
    obtain ⟨hoffset, hlt, hfield⟩ :=
      (hcoherent w hw c (hsound.homes.live hc)).fieldOffset ha hi
    refine ⟨hoffset, hfield, fun o ho hoc => ?_⟩
    have hlength := hsound.peopled.fields ho
    rw [hoc] at hlength
    rw [World.field?, List.getElem?_eq_getElem (hlength ▸ hlt)]
    rfl
  · intro k m hm
    have hsound := (hnamed w hw).1
    have hlive := hsound.homes.live hc
    exact (hcoherent w hw c hlive).same_name
      (hcoherent w hw a (hsound.lineages.live_of_mem_lineage hlive ha)) ha hm

end Reached

/-! ### The demonstration -/

namespace Demo

/-- The world in which the handler calls through. -/
def resumed : World Body := (opened .classWide).trail.worlds.getD 6 {}

theorem mem_resumed : resumed ∈ (opened .classWide).trail.log.map Moment.world := by
  have hlength : 5 < ((opened .classWide).trail.log.map Moment.world).length := by
    decide +kernel
  have hget : ((opened .classWide).trail.log.map Moment.world).getD 5 {} = resumed := rfl
  rw [← hget, List.getD_eq_getElem?_getD, List.getElem?_eq_getElem hlength]
  exact List.getElem_mem hlength

/-- The activity's class has the table then that it had before it was patched.  It is coherent,
its table is as long as afterwards, and a call by the method's name finds a method of that
name. -/
theorem coherent_in_handler : resumed.Coherent ⟨3⟩ ∧
    (resumed.classes.get ⟨3⟩).table = ⟨3⟩ ∧
    ((opened .classWide).world.classes.get ⟨3⟩).table = ⟨4⟩ ∧
    ((opened .classWide).world.tableOf ⟨3⟩).length = (resumed.tableOf ⟨3⟩).length ∧
    ∃ m, resumed.methodAt (resumed.classOf ⟨0⟩) 0 = some m ∧
      (resumed.content m).name = methodName := by
  have hone : (opened .classWide).world.vms.size ≤ 1 := by decide +kernel
  have hreg : resumed.Registered ⟨0⟩ ⟨3⟩ := by decide +kernel
  have hlive : resumed.objects.Live ⟨0⟩ := by decide +kernel
  have hslot : resumed.slotOf (resumed.classOf ⟨0⟩) methodName = some 0 := by decide +kernel
  have hmem := List.mem_cons_of_mem (opened .classWide).world mem_resumed
  obtain ⟨hall, hlater, hcalls, -⟩ :=
    Reached.coherent (uses_callMethod rfl) (checked_opened .classWide) hone
  obtain ⟨-, -, -, hlength⟩ := List.rel_of_pairwise_cons hlater mem_resumed ⟨0⟩ ⟨3⟩ hreg
  obtain ⟨m, hm, hname, -⟩ := hcalls resumed hmem {} {}
    (fun _ _ _ _ s => (.value .null, s)) ⟨0⟩ ⟨0⟩ methodName 0 [] hlive hslot
  exact ⟨hall resumed hmem ⟨0⟩ ⟨3⟩ hreg, by decide +kernel, by decide +kernel, hlength, m, hm,
    hname⟩

end Demo

end Interception
