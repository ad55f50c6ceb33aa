/-
Which row speaks for a class.

A machine refuses a name that it knows, so no class has the name of one of its superclasses,
and a row, which names a class, is the own row of one class of a lineage at most.  The
nearest row of a class is therefore the own row of the nearest class that has one: whatever
else was patched on the lineage is further up.  So what the tables of that class have in a
slot is for the same declaration as what the class itself has there, however many classes of
the lineage were patched.
-/
import Interception.Proofs.Chains

namespace Interception

variable {β H : Type}

namespace World

variable {w w' : World β} {v : VmRef} {a b c : ClassRef} {g g' : RegistryRef} {i i' k : Nat}
  {r r' : Resolution} {name : String} {t : CellRef}

/-! ### Names -/

/-- A machine knows the names of its classes, and no class is named like a superclass. -/
structure Titled (w : World β) : Prop where
  known : ∀ {v c}, w.Registered v c → (w.vms.get v).classes.contains (w.className c) = true
  apart : ∀ {c a}, a ∈ w.ancestors c → w.className a ≠ w.className c

namespace Titled

theorem empty : ({} : World β).Titled where
  known h := absurd h not_registered_empty
  apart h := by cases h

theorem of_sameClasses (h : w.Titled) (hs : w.SameClasses w')
    (hvms : ∀ v, (w'.vms.get v).classes = (w.vms.get v).classes) : w'.Titled where
  known hc := by
    rw [Registered, hvms] at hc
    rw [hvms, hs.className]
    exact h.known hc
  apart {c a} ha := by
    rw [World.ancestors, (hs.alike c).ancestors] at ha
    rw [hs.className, hs.className]
    exact h.apart ha

theorem link (h : w.Titled) (hl : w.Lineages) (hh : w.Homes) (d : ClassDecl β) (number : Nat)
    {super? : Option ClassRef} (hsuper : ∀ s, super? = some s → w.classes.Live s)
    (hfresh : ∀ s, super? = some s → ∀ a ∈ w.lineage s, w.className a ≠ d.name) :
    (w.link d number super?).2.Titled := by
  have hlinks := links_link w d number super?
  have hvms : (w.link d number super?).2.vms = w.vms := rfl
  generalize (w.link d number super?).2 = w' at hlinks hvms
  have hname : ∀ {c}, w.classes.Live c → w'.className c = w.className c := fun hc =>
    congrArg Class.name (hlinks.old hc.ne_next)
  refine ⟨fun {v c} hc => ?_, fun {c a} ha => ?_⟩
  · rw [Registered, hvms] at hc
    rw [hvms, hname (hh.live hc)]
    exact h.known hc
  · rw [hname (hlinks.live_of_mem_ancestors hl hsuper ha)]
    by_cases hc : c = w.classes.next
    · subst hc
      obtain ⟨s, hs, ha⟩ := hlinks.of_mem_ancestors_new ha
      have hnext : w'.className w.classes.next = d.name := hlinks.new.name
      rw [hnext]
      exact hfresh s hs a ha
    · have hsame : w'.className c = w.className c := congrArg Class.name (hlinks.old hc)
      rw [hsame]
      exact h.apart (hlinks.ancestors_old hc ▸ ha)

theorem enroll (h : w.Titled) (hn : w.Newcomer v c) : (w.enroll v c).Titled := by
  have hsame := sameClasses_enroll w v c
  refine ⟨fun {u a} ha => ?_, fun {a b} hb => ?_⟩
  · rw [hsame.className]
    by_cases hu : u = v
    · subst hu
      rw [classes_enroll_self hn.machine]
      rw [ClassRegistry.contains, ClassRegistry.lookup_register]
      split
      · rfl
      · rename_i hac
        rcases (registered_enroll hn.machine).mp ha with ha | ⟨-, rfl⟩
        · exact h.known ha
        · exact absurd rfl hac
    · rw [Registered, classes_enroll_of_ne hu] at ha
      rw [classes_enroll_of_ne hu]
      exact h.known ha
  · rw [World.ancestors, (hsame.alike a).ancestors] at hb
    rw [hsame.className, hsame.className]
    exact h.apart hb

/-- A class linked below one of a machine's classes under a name that is free there. -/
theorem linked (h : w.Titled) (hw : w.Sound) {d : ClassDecl β} {s : ClassRef}
    (hnew : (w.vms.get v).classes.contains d.name = false) (hs : w.Registered v s) (number : Nat) :
    (w.link d number (some s)).2.Titled := by
  refine h.link hw.lineages hw.homes d number (fun s' hs' => ?_) fun s' hs' a ha heq => ?_
  · cases hs'
    exact hw.homes.live hs
  · cases hs'
    have hknown := h.known (hw.homes.upward hs ha)
    rw [heq, hnew] at hknown
    cases hknown

theorem define (h : w.Titled) (hw : w.Sound) {d : ClassDecl β}
    (hd : w.define v d = .ok (c, w')) : w'.Titled := by
  obtain ⟨hnew, rfl, s, hs, rfl⟩ := define_eq_ok hd
  obtain ⟨hreg, -⟩ := hw.homes.of_findClass hs
  exact (h.linked hw hnew hreg _).enroll
    (newcomer_link hw.orderly hw.lineages hw.homes d hreg)

theorem bareMachine (h : w.Titled) (hw : w.Sound) (options : VmOptions) (core : Core) :
    (w.bareMachine options core).Titled := by
  have hroot : w.rootLinked.Titled :=
    h.link hw.lineages hw.homes _ 0 (fun s hs => by cases hs) fun s hs => by cases hs
  have hl : w.rootLinked.Lineages :=
    hw.lineages.link _ 0 (fun s hs => by cases hs) (ordered_nothing w.cells)
  have hh : w.rootLinked.Homes :=
    hw.homes.of_grows (extends_link 0 w { name := rootClassName } 0 none).grows (fun _ => rfl)
      fun hr => hr
  have hproxy := hroot.link hl hh { name := proxyClassName
                                    fields := [⟨handlerFieldName, handlerFieldType⟩] } 1
    w.live_rootLinked fun s hs a ha => by
      cases hs
      have hnext := get_link_next w { name := rootClassName } 0 none
      have hancestors : w.rootLinked.ancestors w.classes.next = [] := hnext.ancestors
      rw [lineage_eq, hancestors, List.mem_singleton] at ha
      have hname : w.rootLinked.className w.classes.next = rootClassName := hnext.name
      rw [ha, hname]
      exact show rootClassName ≠ proxyClassName by decide
  exact hproxy.of_sameClasses ⟨fun _ => Iff.rfl, fun _ => .refl _⟩ fun v =>
    vmClasses_bareMachine w options core v

theorem newVmAround (h : w.Titled) (hw : w.Sound) (options : VmOptions) (core : Core) :
    (w.newVmAround options core).2.Titled :=
  (newVmAround_enroll options core hw.orderly hw.lineages hw.homes (h.bareMachine hw options core)
    fun _ _ _ hn hx => hx.enroll hn).1

end Titled

/-! ### The nearest row -/

/-- What follows a class on a lineage is its own lineage. -/
theorem Lineages.eq_lineage (h : w.Lineages) {nearer farther : List ClassRef}
    (hsplit : w.lineage c = nearer ++ a :: farther) : a :: farther = w.lineage a := by
  induction nearer generalizing c with
  | nil =>
    obtain ⟨rfl, hfarther⟩ := List.cons.inj hsplit
    rw [← hfarther]
    rfl
  | cons x rest ih =>
    obtain ⟨-, hrest⟩ := List.cons.inj hsplit
    have hrest' : w.ancestors c = rest ++ a :: farther := hrest
    cases hhead : (w.ancestors c).head? with
    | none =>
      rw [List.head?_eq_none_iff.mp hhead] at hrest'
      cases rest <;> cases hrest'
    | some s => exact ih ((h.headed hhead).symm.trans hrest')

/-- Whatever was patched on a lineage belongs to the class of the nearest row or to one of its
superclasses. -/
theorem Sound.nearest (hw : w.Sound) (ht : w.Titled) (hi : w.interceptionOf g c = some (i, r))
    (hr : w.Resolves g i' r') (hmem : r'.cls ∈ w.lineage c) : r'.cls ∈ w.lineage r.cls := by
  obtain ⟨hnear, hres, habove⟩ := interceptionOf_eq_some.mp hi
  rw [nearestEntry, List.findSome?_eq_some_iff] at hnear
  obtain ⟨nearer, a, farther, hsplit, ha, hnone⟩ := hnear
  -- The class the lookup stops at and the class that was patched have the same name.
  have hname : w.className a = w.className r.cls :=
    (hw.orderly.row_className ha).symm.trans (hw.orderly.row_className (hw.filled.own hres))
  have hmema : a ∈ w.lineage c := by
    rw [hsplit]
    exact List.mem_append_right _ List.mem_cons_self
  have hsame : a = r.cls := by
    rcases hw.lineages.comparable hmema habove with heq | hbelow | hbelow
    · exact heq
    · exact absurd hname (ht.apart hbelow)
    · exact absurd hname.symm (ht.apart hbelow)
  rw [hsplit] at hmem
  rw [← hsame, ← hw.lineages.eq_lineage hsplit]
  rcases List.mem_append.mp hmem with hbefore | hafter
  · have hown := hw.filled.own hr
    rw [hnone _ hbefore] at hown
    cases hown
  · exact hafter

/-- A class between two that go by the same declaration goes by it too. -/
theorem Lineages.declaration?_between (h : w.Lineages) (hb : b ∈ w.lineage c)
    (ha : a ∈ w.lineage b) (hsome : ∃ x, w.declaration? a name = some x)
    (hsame : w.declaration? c name = w.declaration? a name) :
    w.declaration? c name = w.declaration? b name := by
  obtain ⟨⟨x, d⟩, hx⟩ := hsome
  rw [hsame, hx]
  rw [hx] at hsame
  obtain ⟨hxa, -⟩ := declaration?_eq_some hx
  obtain ⟨nearer, farther, hsplit, hnearer, hlast⟩ := declaration?_eq_some_iff.mp hsame
  obtain ⟨above, hc⟩ := h.lineage_suffix hb
  obtain ⟨nearer', farther', hsplit'⟩ := List.append_of_mem (h.mem_lineage_trans hxa ha)
  have hsplit'' : w.lineage c = (above ++ nearer') ++ x :: farther' := by
    rw [← hc, hsplit', List.append_assoc]
  have hfarther : farther' = farther :=
    (List.cons.inj ((h.eq_lineage hsplit'').trans (h.eq_lineage hsplit).symm)).2
  rw [hfarther, hsplit] at hsplit''
  have habove := List.append_cancel_right hsplit''
  refine (declaration?_eq_some_iff.mpr ⟨nearer', farther', hsplit', fun y hy => ?_, hlast⟩).symm
  refine hnearer y ?_
  rw [habove]
  exact List.mem_append_right _ hy

/-- The class of the nearest row has the same method in the slot of a copied cell. -/
theorem Sound.declared?_nearest (hw : w.Sound) (htitled : w.Titled) (hc : w.classes.Live c)
    (hi : w.interceptionOf g c = some (i, r)) (hk : w.slotOf c name = some k)
    (ht : w.methodAt c k = some t) (hcopied : w.Copied t) :
    w.slotOf r.cls name = some k ∧ w.declared? c name k = w.declared? r.cls name k := by
  obtain ⟨-, hres, habove⟩ := interceptionOf_eq_some.mp hi
  obtain ⟨g', i', r', j, hr, hj⟩ := hcopied
  obtain ⟨hmem, rfl⟩ := (hw.tabled.current c hc).copies ht hr hj
  obtain ⟨v, hv⟩ := hw.homed c hc
  obtain rfl : g' = g :=
    (hw.homes.registry hv hr hmem).trans (hw.homes.registry hv hres habove).symm
  have hbelow := hw.nearest htitled hi hr hmem
  have hslot := hw.slotOf_patched hk hr hmem hj
  have hstems := (hw.tabled.current c hc).stems ht hr hj hk
  refine ⟨hw.lineages.slots_of_mem_lineage hbelow hslot, ?_⟩
  rw [declared?, declared?, hw.lineages.declaration?_between habove hbelow
    (declaration?_isSome hw.lineages (hw.orderly.live hr) hslot) hstems]

end World

/-! ### Every moment -/

/-- Ordinary runs keep apart the names of the classes of a lineage. -/
theorem upheld_titled : Upheld (β := β) (fun op => op.IsOrdinary = true) World.Titled
    (fun _ _ => True) where
  ordinary h := h
  start := .empty
  refl := trivial
  trans _ _ _ _ _ _ := trivial
  registry _ _ h := ⟨h.of_sameClasses ⟨fun _ => Iff.rfl, fun _ => .refl _⟩ fun _ => rfl, trivial⟩
  machine options core hw h := ⟨h.newVmAround hw options core, trivial⟩
  define hw h hd := ⟨h.define hw hd, trivial⟩
  objects _ h hstep := by
    have honly := hstep.onlyObjects
    refine ⟨h.of_sameClasses honly.sameClasses fun u => ?_, trivial⟩
    obtain ⟨n, hn⟩ := honly.vms u
    rw [hn]
  opening {w th v this m _} _ h _ _ := by
    have hshift := World.shifts_openWindow w th v (w.coreOf v) this m
    exact ⟨h.of_sameClasses hshift.sameClasses fun u => by rw [hshift.vms], trivial⟩
  closing {w x th v this m _ u} _ _ _ _ _ h _ _ := by
    have hshift := World.shifts_closeWindow x u (w.openWindow th v (w.coreOf v) this m).1
    exact ⟨h.of_sameClasses hshift.sameClasses fun y => by rw [hshift.vms], trivial⟩

/-- At every moment of a run of ordinary bodies names tell the classes of a lineage apart. -/
theorem Reached.titled {host : Host β H} {s : State β (Logged β H)}
    (hb : ∀ b v this args, (host.body b v this args).Uses fun op => op.IsOrdinary = true)
    (hs : Reached host (fun op => op.IsOrdinary = true) s) {w : World β} {th : Thread}
    (hat : s.trail.At w th) : w.Sound ∧ w.Titled :=
  upheld_titled.everywhere hb hs hat

end Interception
