/-
What a call by name comes to.

Where rows are not stacked and nothing runs yet, a class's cell for a method holds what is
declared for the class, or the trampoline for it.  In the second case the class is one whose
instances get a handler, and where handlers have no rows themselves the handler's class has
its `invoke` from a declaration, as written.  That no such class directly extends the proxy
base needs the most care: a row may not name such a class, and above it there is only the
proxy base, for whose classes there is nothing to copy.
-/
import Interception.Proofs.Stillness
import Interception.Proofs.Loading

namespace Interception.World

variable {β : Type} {w : World β} {v : VmRef} {c : ClassRef} {g : RegistryRef} {i k : Nat}
  {r : Resolution} {name : String} {t o : CellRef} {b : β}

/-- Rows are not stacked, none names a direct subclass of the proxy base, and the handler
classes they ask for have no rows on their lineages and run this body. -/
structure Discreet (w : World β) (v : VmRef) (b : β) : Prop where
  unstacked : w.Unstacked
  direct : ∀ {c}, w.Registered v c → (w.classes.get c).super? = some (w.vms.get v).proxy →
    w.ownEntry (w.coreOf v).registry c = none
  free : ∀ {i r a}, w.Resolves (w.coreOf v).registry i r → a ∈ w.lineage r.handlerClass →
    w.ownEntry (w.coreOf v).registry a = none
  body : ∀ {i r}, w.Resolves (w.coreOf v).registry i r → w.handlerBody? r.handlerClass = some b

/-- How the class's cell in a slot leads to a descriptor: it holds it, or it is the trampoline
of a cell that does, and the class's instances have handlers with this body. -/
inductive Route (w : World β) (v : VmRef) (c : ClassRef) (k : Nat) (b : β) (d : Descriptor β) :
    Prop
  | direct {t : CellRef} (cell : w.methodAt c k = some t) (holds : w.content t = d)
  | handled {t o : CellRef} {i : Nat} {r : Resolution} {l : Nat} {inv : CellRef}
      (cell : w.methodAt c k = some t) (holds : w.content t = d.toTrampoline o)
      (original : w.content o = d)
      (ordinary : (w.classes.get c).super? ≠ some (w.vms.get v).proxy)
      (row : w.interceptionOf (w.coreOf v).registry c = some (i, r))
      (handler : w.HandledBy r.handlerClass l inv b)

/-- A cell goes on leading where it led. -/
theorem Still.route {b w : World β} (h : b.Still w) {x : β} {d : Descriptor β}
    (hr : b.Route v c k x d) : w.Route v c k x d := by
  cases hr with
  | direct hcell hholds =>
    refine .direct ((h.methodAt c k).trans hcell) ?_
    rw [h.content]
    exact hholds
  | @handled t o i r l inv hcell hholds horiginal hordinary hrow hhandler =>
    refine .handled (o := o) (i := i) ((h.methodAt c k).trans hcell) ?_ ?_ ?_ ?_
      (h.handledBy hhandler)
    · rw [h.content]
      exact hholds
    · rw [h.content]
      exact horiginal
    · rw [h.classes, h.proxy]
      exact hordinary
    · rw [h.coreOf, h.interceptionOf]
      exact hrow

/-- The patched class that a cell stems from declares or inherits a method. -/
theorem CopyAt.declares (h : w.CopyAt c k t o g i r) (hw : w.Sound) :
    ∃ a ∈ w.lineage r.cls, (w.classes.get a).declared ≠ [] := by
  obtain ⟨name, hname⟩ :=
    (hw.tabled.intercepted h.resolves).named (List.getElem?_eq_some_iff.mp h.copy).1
  have hslot : (w.slotOf r.cls name).isSome = true := by
    rw [hname]
    rfl
  obtain ⟨a, ha, hdeclares⟩ := (hw.lineages.slotted name (hw.orderly.live h.resolves)).mp hslot
  refine ⟨a, ha, ?_⟩
  intro hnone
  rw [Declares, Class.declares, hnone] at hdeclares
  cases hdeclares

/-- A direct subclass of the proxy base has no copied cells. -/
theorem Discreet.not_direct (hd : w.Discreet v b) (hw : w.Sound) (hm : w.Methodless v)
    (hc : w.Registered v c) (hcopy : w.CopyAt c k t o g i r) :
    (w.classes.get c).super? ≠ some (w.vms.get v).proxy := by
  intro hsuper
  have hancestors : w.ancestors c = w.lineage (w.vms.get v).proxy := hw.lineages.headed hsuper
  rcases List.mem_cons.mp hcopy.above with heq | hbelow
  · have hown := hw.filled.own hcopy.resolves
    rw [hw.homes.registry hc hcopy.resolves hcopy.above, heq, hd.direct hc hsuper] at hown
    cases hown
  · have hproxy : r.cls ∈ w.lineage (w.vms.get v).proxy := by
      rw [← hancestors]
      exact hbelow
    obtain ⟨a, ha, hdeclares⟩ := hcopy.declares hw
    exact hdeclares (hm.declared (hw.lineages.mem_lineage_trans ha hproxy))

/-- The class that a row asks for runs the body declared for it. -/
theorem Discreet.handledBy (hd : w.Discreet v b) (hw : w.Sound)
    (hr : w.Resolves (w.coreOf v).registry i r) :
    ∃ l inv, w.HandledBy r.handlerClass l inv b := by
  obtain ⟨u, hu, hcore, -⟩ := hw.filled.handler hr
  refine hw.handledBy (hw.homes.live hu) ?_ (hd.body hr)
  intro g' i' r' hr'
  refine hw.not_patched hu ?_ hr'
  intro a ha
  rw [hcore]
  exact hd.free hr ha

/-- **A cell holds what is declared or the trampoline for it.** -/
theorem Discreet.route (hd : w.Discreet v b) (hw : w.Sound) (he : w.Exact)
    (hm : w.Methodless v) (hc : w.Registered v c) (hk : w.slotOf c name = some k) :
    ∃ d, w.declared? c name k = some d ∧ w.Route v c k b d := by
  have hlive := hw.homes.live hc
  obtain ⟨t, ht⟩ := hw.methodAt hlive hk
  by_cases hcopied : w.Copied t
  · obtain ⟨o, g, i, r, hcopy⟩ := hw.copyAt hlive ht hcopied
    have hdeclared := hcopy.declared hw hd.unstacked hlive hk ht
    have hexact : w.content t = (w.entry g i).row.copyOf (w.content o) o :=
      he.related hcopy.resolves hcopy.copy hcopy.original
    obtain ⟨rfl, hrow⟩ := hw.interceptionOf hd.unstacked hc hcopy.resolves hcopy.above
    refine ⟨w.content o, hdeclared, ?_⟩
    rw [Row.copyOf] at hexact
    split at hexact
    · obtain ⟨l, inv, hhandled⟩ := hd.handledBy hw hcopy.resolves
      exact .handled ht hexact rfl (hd.not_direct hw hm hc hcopy) hrow hhandled
    · exact .direct ht hexact
  · exact ⟨w.content t, hw.declared_plain hlive hk ht hcopied, .direct ht rfl⟩

/-- Without rows a cell holds what is declared. -/
theorem Rowless.direct (h : w.Rowless) (hw : w.Sound) (hc : w.Registered v c)
    (hk : w.slotOf c name = some k) : ∃ d t, w.declared? c name k = some d ∧
      w.methodAt c k = some t ∧ w.content t = d := by
  have hlive := hw.homes.live hc
  obtain ⟨t, ht⟩ := hw.methodAt hlive hk
  refine ⟨w.content t, t, hw.declared_plain hlive hk ht ?_, ht, rfl⟩
  rintro ⟨g, i, r, j, hr, -⟩
  exact h.not_resolves hr

end Interception.World
