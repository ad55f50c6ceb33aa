/-
Calls side by side.

In twin worlds a call by name on corresponding objects, with twin arguments, ends alike and
leaves twin worlds, unless the call in the world without rows overflows; and both threads
come back as they went in.  The induction is on the frames that the world without rows has
left.  There a call takes one frame, and in the world with rows it takes at most four, which
is why four times the limit is enough; what is run at the end of these frames is the same
declaration in both, with the same bound on how much deeper the one thread is.
-/
import Interception.Proofs.Twins

namespace Interception

variable {H : Type} {R : ObjectRef → ObjectRef → Prop} {b₁ b₂ : World Routine} {v : VmRef}
  {s₁ s₂ : State Routine H} {x₁ x₂ : Ending Value × State Routine H} {o₁ o₂ : ObjectRef}
  {args₁ args₂ env₁ env₂ : List Value} {e₁ e₂ : Executor Routine H} {t₁ t₂ : Thread}

/-- From these states both acts end alike, in twin worlds, with the threads as they were. -/
structure Mirrors (b₁ b₂ : World Routine) (v : VmRef) (R : ObjectRef → ObjectRef → Prop)
    (s₁ s₂ : State Routine H) (x₁ x₂ : Ending Value × State Routine H) : Prop where
  ending : x₁.1.Twin R x₂.1
  twin : World.Twin b₁ b₂ v R x₁.2.world x₂.2.world
  thread : x₁.2.thread = s₁.thread
  thread' : x₂.2.thread = s₂.thread

/-- Ending where it began. -/
theorem Mirrors.stay (h : World.Twin b₁ b₂ v R s₁.world s₂.world) {e e' : Ending Value}
    (he : e.Twin R e') : Mirrors b₁ b₂ v R s₁ s₂ (e, s₁) (e', s₂) :=
  ⟨he, h, rfl, rfl⟩

/-- Going on from states with the same threads. -/
theorem Mirrors.after {u₁ u₂ : State Routine H} (h : Mirrors b₁ b₂ v R u₁ u₂ x₁ x₂)
    (h₁ : u₁.thread = s₁.thread) (h₂ : u₂.thread = s₂.thread) : Mirrors b₁ b₂ v R s₁ s₂ x₁ x₂ :=
  ⟨h.ending, h.twin, h.thread.trans h₁, h.thread'.trans h₂⟩

/-- With these executors and threads, calls by name are mirrored unless the second overflows. -/
structure MirrorsCalls (b₁ b₂ : World Routine) (v : VmRef) (R : ObjectRef → ObjectRef → Prop)
    (e₁ e₂ : Executor Routine H) (t₁ t₂ : Thread) : Prop where
  call : ∀ {s₁ s₂ : State Routine H}, s₁.thread = t₁ → s₂.thread = t₂ →
    World.Twin b₁ b₂ v R s₁.world s₂.world → ∀ {o₁ o₂}, R o₁ o₂ →
    ∀ {args₁ args₂}, Twins R args₁ args₂ → ∀ name,
    (invokeVirtual e₂ v o₂ name args₂ s₂).1.overflows = false →
    Mirrors b₁ b₂ v R s₁ s₂ (invokeVirtual e₁ v o₁ name args₁ s₁)
      (invokeVirtual e₂ v o₂ name args₂ s₂)

/-! ### Bodies -/

section Bodies

variable {e : Executor Routine H} {s : State Routine H} {env : List Value} {o : ObjectRef}
  {i j k : Nat} {name : String} {ks : List Nat} {next : Recipe}

theorem run_read (ho : (register env k).asObject? = some o) :
    ((Recipe.read k i next).program v env).run routines e s =
      if s.world.isHandlerField o i then (.error Recipe.handlerField, s)
      else (next.program v (env ++ [(s.world.field? o i).getD .null])).run routines e s := by
  simp only [Recipe.program, ho, Program.run]
  split
  · rfl
  · rfl

theorem run_write (ho : (register env k).asObject? = some o) :
    ((Recipe.write k i j next).program v env).run routines e s =
      if s.world.isHandlerField o i then (.error Recipe.handlerField, s)
      else match s.world.setField o i (register env j) with
        | .ok w => (next.program v env).run routines e { s with world := w }
        | .error x => (.error x, s) := by
  simp only [Recipe.program, ho, Program.run]
  split
  · rfl
  · simp only [Program.run, Op.run]
    cases s.world.setField o i (register env j) with
    | ok w => rfl
    | error x => rfl

theorem run_call (ho : (register env k).asObject? = some o) :
    ((Recipe.call k name ks next).program v env).run routines e s =
      match invokeVirtual e v o name (ks.map (register env)) s with
      | (.value y, u) => (next.program v (env ++ [y])).run routines e u
      | (.error x, u) => (.error x, u)
      | (.panic text, u) => (.panic text, u)
      | (.endless, u) => (.endless, u) := by
  simp only [Recipe.program, ho, Program.run, Op.run]
  generalize invokeVirtual e v o name (ks.map (register env)) s = x
  obtain ⟨y, u⟩ := x
  cases y with
  | value y => rfl
  | error x => rfl
  | panic text => rfl
  | endless => rfl

end Bodies

/-- Run on these threads by these executors, with twin registers, a recipe does the same to twin
worlds, unless the second run overflows. -/
structure MirrorsBody (b₁ b₂ : World Routine) (v : VmRef) (R : ObjectRef → ObjectRef → Prop)
    (e₁ e₂ : Executor Routine H) (t₁ t₂ : Thread) (q : Recipe) : Prop where
  run : ∀ {s₁ s₂ : State Routine H}, s₁.thread = t₁ → s₂.thread = t₂ →
    World.Twin b₁ b₂ v R s₁.world s₂.world → ∀ {env₁ env₂}, Twins R env₁ env₂ →
    ((q.program v env₂).run routines e₂ s₂).1.overflows = false →
    Mirrors b₁ b₂ v R s₁ s₂ ((q.program v env₁).run routines e₁ s₁)
      ((q.program v env₂).run routines e₂ s₂)

section Steps

variable {next : Recipe} {k : Nat}

theorem mirrors_read (hb : World.Counterparts b₁ b₂ v .callThrough) (i : Nat)
    (hnext : MirrorsBody b₁ b₂ v R e₁ e₂ t₁ t₂ next) :
    MirrorsBody b₁ b₂ v R e₁ e₂ t₁ t₂ (.read k i next) := by
  refine ⟨fun {s₁ s₂} h₁ h₂ htwin {env₁ env₂} henv hflat => ?_⟩
  rcases (henv.register k).asObject?_eq with ⟨hnone, hnone'⟩ | ⟨o, o', hR, hsome, hsome'⟩
  · simp only [Recipe.program, hnone, hnone']
    exact .stay htwin (.error _)
  · rw [run_read hsome', ← htwin.isHandlerField_eq hb.same hR] at hflat ⊢
    rw [run_read hsome]
    by_cases hfield : s₁.world.isHandlerField o i = true
    · rw [if_pos hfield, if_pos hfield]
      exact .stay htwin (.error _)
    · rw [if_neg hfield] at hflat
      rw [if_neg hfield, if_neg hfield]
      have hread := Value.Twin.getD (htwin.fields hR (Bool.eq_false_iff.mpr hfield))
      exact hnext.run h₁ h₂ htwin (henv.snoc hread) hflat

theorem mirrors_write (hb : World.Counterparts b₁ b₂ v .callThrough) (i j : Nat)
    (hnext : MirrorsBody b₁ b₂ v R e₁ e₂ t₁ t₂ next) :
    MirrorsBody b₁ b₂ v R e₁ e₂ t₁ t₂ (.write k i j next) := by
  refine ⟨fun {s₁ s₂} h₁ h₂ htwin {env₁ env₂} henv hflat => ?_⟩
  rcases (henv.register k).asObject?_eq with ⟨hnone, hnone'⟩ | ⟨o, o', hR, hsome, hsome'⟩
  · simp only [Recipe.program, hnone, hnone']
    exact .stay htwin (.error _)
  · rw [run_write hsome', ← htwin.isHandlerField_eq hb.same hR] at hflat ⊢
    rw [run_write hsome]
    by_cases hfield : s₁.world.isHandlerField o i = true
    · rw [if_pos hfield, if_pos hfield]
      exact .stay htwin (.error _)
    · rw [if_neg hfield] at hflat
      rw [if_neg hfield, if_neg hfield]
      have hlength := htwin.length_eq hb.same hR
      by_cases hlt : i < (s₁.world.objects.get o).fields.length
      · have hlt' : i < (s₂.world.objects.get o').fields.length := hlength ▸ hlt
        have hset := World.setField_eq hlt (register env₁ j)
        have hset' := World.setField_eq hlt' (register env₂ j)
        simp only [hset'] at hflat
        simp only [hset, hset']
        have hput := htwin.putField hb hR hlt (Bool.eq_false_iff.mpr hfield) (henv.register j)
        refine Mirrors.after (hnext.run ?_ ?_ hput henv hflat) rfl rfl
        · exact h₁
        · exact h₂
      · have hlt' : ¬ i < (s₂.world.objects.get o').fields.length := hlength ▸ hlt
        simp only [World.setField, if_neg hlt', hlength]
        exact .stay htwin (.error _)

theorem mirrors_invoke (hcalls : MirrorsCalls b₁ b₂ v R e₁ e₂ t₁ t₂) (name : String)
    (ks : List Nat) (hnext : MirrorsBody b₁ b₂ v R e₁ e₂ t₁ t₂ next) :
    MirrorsBody b₁ b₂ v R e₁ e₂ t₁ t₂ (.call k name ks next) := by
  refine ⟨fun {s₁ s₂} h₁ h₂ htwin {env₁ env₂} henv hflat => ?_⟩
  rcases (henv.register k).asObject?_eq with ⟨hnone, hnone'⟩ | ⟨o, o', hR, hsome, hsome'⟩
  · simp only [Recipe.program, hnone, hnone']
    exact .stay htwin (.error _)
  · rw [run_call hsome'] at hflat ⊢
    rw [run_call hsome]
    have hcall := hcalls.call h₁ h₂ htwin hR (henv.registers ks) name
    generalize invokeVirtual e₁ v o name (ks.map (register env₁)) s₁ = y at hcall ⊢
    generalize invokeVirtual e₂ v o' name (ks.map (register env₂)) s₂ = y' at hcall hflat ⊢
    obtain ⟨r, u⟩ := y
    obtain ⟨r', u'⟩ := y'
    -- An overflow of the call would be one of the body.
    have hover : r'.overflows = false := by
      cases r' with
      | error e => exact hflat
      | value y => rfl
      | panic text => rfl
      | endless => rfl
    obtain ⟨hending, htwin', hthread, hthread'⟩ := hcall hover
    cases hending with
    | value hy =>
      have hrest := hnext.run (hthread.trans h₁) (hthread'.trans h₂) htwin' (henv.snoc hy) hflat
      exact hrest.after hthread hthread'
    | error e => exact ⟨.error e, htwin', hthread, hthread'⟩
    | panic text => exact ⟨.panic text, htwin', hthread, hthread'⟩
    | endless => exact ⟨.endless, htwin', hthread, hthread'⟩

end Steps

/-- A recipe sees the same in both worlds and does the same to them. -/
theorem mirrors_recipe (hb : World.Counterparts b₁ b₂ v .callThrough)
    (hcalls : MirrorsCalls b₁ b₂ v R e₁ e₂ t₁ t₂) (q : Recipe) :
    MirrorsBody b₁ b₂ v R e₁ e₂ t₁ t₂ q := by
  induction q with
  | give k => exact ⟨fun _ _ htwin _ _ henv _ => .stay htwin (.value (henv.register k))⟩
  | fail e => exact ⟨fun _ _ htwin _ _ _ _ => .stay htwin (.error e)⟩
  | inspect ks next ih =>
    refine ⟨fun {s₁ s₂} h₁ h₂ htwin {env₁ env₂} henv hflat => ?_⟩
    have hseen : (ks.map fun k => (register env₁ k).scalar?) =
        ks.map fun k => (register env₂ k).scalar? :=
      List.map_congr_left fun k _ => (henv.register k).scalar?_eq
    simp only [Recipe.program, hseen] at hflat ⊢
    exact (ih _).run h₁ h₂ htwin henv hflat
  | put y next ih =>
    exact ⟨fun h₁ h₂ htwin _ _ henv hflat =>
      ih.run h₁ h₂ htwin (henv.snoc (.scalar y)) hflat⟩
  | read k i next ih => exact mirrors_read hb i ih
  | write k i j next ih => exact mirrors_write hb i j ih
  | call k name ks next ih => exact mirrors_invoke hcalls name ks ih

/-- The documented body of handlers, called by a recipe, lacks its method and panics. -/
theorem mirrors_callThrough (htwin : World.Twin b₁ b₂ v R s₁.world s₂.world)
    (hargs : Twins R args₁ args₂) : Mirrors b₁ b₂ v R s₁ s₂
      ((callThrough v o₁ args₁).run routines e₁ s₁)
      ((callThrough v o₂ args₂).run routines e₂ s₂) := by
  cases hargs with
  | nil => exact .stay htwin (.panic _)
  | cons hx hrest =>
    rcases hx.asObject?_eq with ⟨hnone, hnone'⟩ | ⟨o, o', -, hsome, hsome'⟩
    · simp only [callThrough, List.getElem?_cons_zero, hnone, hnone']
      exact .stay htwin (.panic _)
    · cases hrest with
      | nil =>
        simp only [callThrough, List.getElem?_cons_zero, hsome, hsome']
        exact .stay htwin (.panic _)
      | cons hy _ =>
        obtain ⟨hmethod, hmethod'⟩ := hy.asMethod?_eq
        simp only [callThrough, List.getElem?_cons_zero, List.getElem?_cons_succ, hsome, hsome',
          hmethod, hmethod']
        exact .stay htwin (.panic _)

/-- Cells that hold the same declaration do the same. -/
theorem mirrors_cell (hb : World.Counterparts b₁ b₂ v .callThrough)
    (hcalls : MirrorsCalls b₁ b₂ v R e₁ e₂ s₁.thread s₂.thread)
    (htwin : World.Twin b₁ b₂ v R s₁.world s₂.world) (hR : R o₁ o₂)
    (hargs : Twins R args₁ args₂) {c₁ c₂ : CellRef} {d : Descriptor Routine}
    (hd : d.isTrampoline = false) (hc₁ : s₁.world.content c₁ = d) (hc₂ : s₂.world.content c₂ = d)
    (hflat : (runCell routines e₂ v c₂ o₂ args₂ s₂).1.overflows = false) :
    Mirrors b₁ b₂ v R s₁ s₂ (runCell routines e₁ v c₁ o₁ args₁ s₁)
      (runCell routines e₂ v c₂ o₂ args₂ s₂) := by
  cases hcode : d.code with
  | native x =>
    have hcode₁ : (s₁.world.content c₁).code = .native x := by
      rw [hc₁]
      exact hcode
    have hcode₂ : (s₂.world.content c₂).code = .native x := by
      rw [hc₂]
      exact hcode
    rw [runCell_native _ _ hcode₂] at hflat ⊢
    rw [runCell_native _ _ hcode₁]
    cases x with
    | callThrough => exact mirrors_callThrough htwin hargs
    | recipe q =>
      exact (mirrors_recipe hb hcalls q).run rfl rfl htwin (.cons (.object hR) hargs) hflat
  | abstract =>
    simp only [runCell, hc₁, hc₂, hcode]
    exact .stay htwin (.error _)
  | trampoline m =>
    have htrue : d.isTrampoline = true := Descriptor.isTrampoline_iff.mpr ⟨m, hcode⟩
    rw [hd] at htrue
    cases htrue

/-! ### Calls -/

theorem invokeVirtual_missing {β : Type} {e : Executor β H} {s : State β H} {o : ObjectRef}
    {name : String} {as : List Value} (hk : s.world.slotOf (s.world.classOf o) name = none) :
    invokeVirtual e v o name as s =
      (.error (.methodNotFound (s.world.className (s.world.classOf o)) name), s) := by
  have hk' : (s.world.classes.get (s.world.classOf o)).slotOf name = none := hk
  simp only [invokeVirtual, hk']

/-- An act that wraps a declaration in one world mirrors one that wraps it in the other. -/
theorem Wraps.mirrors {n₁ n₂ j₁ j₂ : Nat} {d : Descriptor Routine}
    (h₁ : Wraps routines v n₁ j₁ d o₁ args₁ s₁ x₁) (h₂ : Wraps routines v n₂ j₂ d o₂ args₂ s₂ x₂)
    (hb : World.Counterparts b₁ b₂ v .callThrough) (hd : d.isTrampoline = false)
    (hcalls : ∀ t₁ t₂ : Thread, t₁.depth = s₁.thread.depth + j₁ →
      t₂.depth = s₂.thread.depth + j₂ → MirrorsCalls b₁ b₂ v R
        (execute (routines : Host Routine H) (n₁ - j₁)) (execute routines (n₂ - j₂)) t₁ t₂)
    (htwin : World.Twin b₁ b₂ v R s₁.world s₂.world) (hR : R o₁ o₂)
    (hargs : Twins R args₁ args₂) (hflat : x₂.1.overflows = false) :
    Mirrors b₁ b₂ v R s₁ s₂ x₁ x₂ := by
  obtain ⟨c₁, u₁, hc₁, hcalm₁, hdepth₁, hend₁, hleave₁⟩ := h₁.runs
  obtain ⟨c₂, u₂, hc₂, hcalm₂, hdepth₂, hend₂, hleave₂⟩ := h₂.runs
  rw [hend₂] at hflat
  obtain ⟨hending, htwin', hthread, hthread'⟩ := mirrors_cell hb
    (hcalls u₁.thread u₂.thread hdepth₁ hdepth₂) (htwin.calm hcalm₁ hcalm₂) hR hargs hd hc₁ hc₂
    hflat
  obtain ⟨hout₁, hback₁⟩ := hleave₁ hthread
  obtain ⟨hout₂, hback₂⟩ := hleave₂ hthread'
  refine ⟨?_, htwin'.calm hback₁ hback₂, hout₁, hout₂⟩
  rw [hend₁, hend₂]
  exact hending

/-- A run that was refused overflowed. -/
theorem refused_overflows {β : Type} {host : Host β H} {m : CellRef} {o : ObjectRef}
    {s : State β H} : (refuse host v m o s).1.overflows = true := rfl

/-- **Calls by name are mirrored**, whatever room the second machine has left, as long as the
first thread is at most four times as deep and has the room that its limit leaves. -/
theorem mirrors_call (hb : World.Counterparts b₁ b₂ v .callThrough) (n₁ n₂ : Nat)
    (hdepth : t₁.depth ≤ 4 * t₂.depth) (hroom : b₁.maxDepth v ≤ t₁.depth + n₁) :
    MirrorsCalls b₁ b₂ v R (execute (routines : Host Routine H) n₁) (execute routines n₂)
      t₁ t₂ := by
  induction n₂ using Nat.strongRecOn generalizing n₁ t₁ t₂ with
  | ind n₂ ih =>
    refine ⟨?_⟩
    intro s₁ s₂ hthread hthread' htwin o₁ o₂ hR args₁ args₂ hargs name hflat
    subst hthread hthread'
    have hlimit : s₁.world.maxDepth v = 4 * s₂.world.maxDepth v := by
      rw [htwin.still.maxDepth, htwin.still'.maxDepth]
      exact hb.limit
    rw [← htwin.still.maxDepth] at hroom
    rcases htwin.lookup hb hR name with ⟨hnone, hnone'⟩ |
      ⟨k, d, t, hd, hk, hdeclared, hroute, hk', ht, hcontent⟩
    · rw [invokeVirtual_missing hnone, invokeVirtual_missing hnone', htwin.className hb.same hR]
      exact .stay htwin (.error _)
    · rw [invokeVirtual_eq hk' ht] at hflat ⊢
      by_cases hadmitted : s₂.thread.depth < s₂.world.maxDepth v
      · cases n₂ with
        | zero =>
          rw [execute_zero, refused_overflows] at hflat
          cases hflat
        | succ n₂ =>
          obtain ⟨n, rfl⟩ : ∃ n, n₁ = n + 4 := ⟨n₁ - 4, by omega⟩
          have hmode : (s₁.world.coreOf v).mode = .perCall := by
            rw [htwin.still.coreOf]
            exact hb.mode
          obtain ⟨j, hj, hwraps⟩ := wraps_call (n := n) args₁ htwin.still.sound hmode
            callsThrough_callThrough hk hdeclared hroute
            (fun hordinary hrow => htwin.handled hR hordinary hrow) (by omega)
          have hcell : Wraps routines v (n₂ + 1) 1 d o₂ args₂ s₂
              (execute routines (n₂ + 1) v t o₂ args₂ s₂) := wraps_cell hcontent hadmitted
          refine hwraps.mirrors hcell hb hd ?_ htwin hR hargs hflat
          intro u₁ u₂ hu₁ hu₂
          refine ih (n₂ + 1 - 1) (by omega) (n + 4 - j) (by omega) ?_
          rw [← htwin.still.maxDepth]
          omega
      · rw [execute_refused _ (by omega), refused_overflows] at hflat
        cases hflat

end Interception
