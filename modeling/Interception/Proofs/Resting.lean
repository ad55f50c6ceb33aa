/-
Between two runs.

A run leaves the thread idle and every cell that was there as it found it, in either mode, so
a copy that was right before a run is right after it.  Class-wide mode has one catch: a class
that a body defines while a window is open is linked to, and patched around, what cells hold
for the time being.  Where bodies define no class, or where no machine works class-wide, every
copy is what patching made it whenever nothing runs.
-/
import Interception.Proofs.Dispatching

namespace Interception

variable {β H : Type}

/-! ### Runs that make no class -/

/-- The ordinary operations but for the definition of classes. -/
def Op.KeepsClasses : Op β → Bool
  | .allocate .. | .callVirtual .. | .callSlot .. | .callDirect .. | .callMethod ..
  | .execute .. | .setField .. => true
  | _ => false

theorem Op.KeepsClasses.isOrdinary {op : Op β} (h : op.KeepsClasses = true) :
    op.IsOrdinary = true := by
  cases op <;> first | rfl | cases h

/-- Runs without definitions settle what they do among the classes there were. -/
theorem kept_classes : Kept (β := β) (fun op => op.KeepsClasses = true) (fun _ _ _ _ => True)
    (fun t => t.world.Sound)
    (fun t u => (t.world.Sound ∧ t.world.Tends u.world) ∧ Settles t u ∧
      ∀ c, u.world.classes.Live c → t.world.classes.Live c) where
  ordinary := Op.KeepsClasses.isOrdinary
  refl ht := ⟨kept_sound.refl ht, .refl ht.orderly, fun _ hc => hc⟩
  trans hu hx h h' :=
    ⟨kept_sound.trans hu hx h.1 h'.1, h.2.1.trans hx.orderly h'.2.1,
      fun c hc => h.2.2 c (h'.2.2 c hc)⟩
  note he ht := by
    have h := kept_sound.note he ht
    exact ⟨h.inv, h.rel, .note ht.orderly he, fun _ hc => hc⟩
  define ha := by cases ha
  allocate {t v c} _ ht := by
    have honly := World.onlyObjects_allocate t.world v c
    have h := kept_sound.allocate (t := t) (v := v) (c := c) rfl ht
    exact ⟨h.inv, h.rel, .of_onlyObjects ht.orderly honly,
      fun a ha => (honly.sameClasses.live a).mp ha⟩
  setField _ ht hf := by
    have honly := World.onlyObjects_setField hf
    have h := kept_sound.setField rfl ht hf
    exact ⟨h.inv, h.rel, .of_onlyObjects ht.orderly honly,
      fun a ha => (honly.sameClasses.live a).mp ha⟩
  frame _ ht _ _ := ⟨ht, fun _ hu h => ⟨hu, h.1, h.2.1.frame, h.2.2⟩⟩
  window {t v m this _ _ _} ht hmay he hr hw hh := by
    obtain ⟨hin, hout⟩ := kept_sound.window ht hmay he hr hw hh
    refine ⟨hin, fun u hu h => ?_⟩
    have hclosed := hout u hu h.1
    have hopen := World.shifts_openWindow t.world t.thread v (t.world.coreOf v) this m
    have hclose := World.shifts_closeWindow u.world u.thread
      (t.guardFor v (t.world.coreOf v) this m)
    exact ⟨hclosed.inv, hclosed.rel, h.2.1.window ht.orderly, fun c hc =>
      (hopen.liveClasses c).mp (h.2.2 c ((hclose.liveClasses c).mp hc))⟩
  slot _ _ := trivial
  direct _ _ _ := trivial
  method _ _ _ _ := trivial
  execute _ _ := trivial
  replaced _ _ _ _ := trivial

/-- What settles without new classes leaves copies exact. -/
theorem Settles.exact {t u : Trail β} (h : Settles t u) (hw : t.world.Sound)
    (hu : u.world.Orderly) (hlive : ∀ c, u.world.classes.Live c → t.world.classes.Live c)
    (he : t.world.Exact) : u.world.Exact :=
  World.EachCopy.of_keeps he hw.tabled h.grows
    (fun m hm => ⟨h.grows.cells m hm, h.contents m hm⟩)
    fun hr => h.newly hr (hlive _ (hu.live hr))

/-! ### One operation after the other -/

section Reached

variable {host : Host β H} {s : State β (Logged β H)}

/-- Where bodies define no class, an operation leaves copies exact. -/
theorem exact_op (hb : ∀ b v this args, (host.body b v this args).Uses
      fun op => op.KeepsClasses = true) (n : Nat) {op : Op β} (hop : op.IsOrdinary = true)
    (hw : s.world.Sound ∧ s.world.Exact) :
    (op.run host.logged (execute host.logged n) s).2.world.Sound ∧
      (op.run host.logged (execute host.logged n) s).2.world.Exact := by
  have hkeeps : op.KeepsClasses = true →
      (op.run host.logged (execute host.logged n) s).2.world.Sound ∧
        (op.run host.logged (execute host.logged n) s).2.world.Exact := fun hkeeps => by
    have h := kept_classes.op host (kept_classes.runs_execute hb n) hkeeps s hw.1
    exact ⟨h.inv, h.rel.2.1.exact hw.1 h.inv.orderly h.rel.2.2 hw.2⟩
  cases op with
  | define v d =>
    simp only [Op.run]
    split
    · rename_i hd
      exact ⟨(hw.1.define hd).1, World.EachCopy.define (fun _ _ _ => rfl) hw.2 hw.1 hd⟩
    · exact hw
  | allocate v c => exact hkeeps rfl
  | callVirtual v this name args => exact hkeeps rfl
  | callSlot v this k args => exact hkeeps rfl
  | callDirect v this name args => exact hkeeps rfl
  | callMethod v caller m this args => exact hkeeps rfl
  | execute v m this args => exact hkeeps rfl
  | setField o i x => exact hkeeps rfl
  | _ => cases hop

/-- Between runs nothing is nested and no window is noted. -/
theorem Reached.idle
    (hb : ∀ b v this args, (host.body b v this args).Uses fun op => op.IsOrdinary = true)
    (hs : Reached host (fun op => op.IsOrdinary = true) s) : s.thread = {} := by
  induction hs with
  | start h => rfl
  | registry _ rows ih => exact ih
  | machine _ options core _ ih => exact ih
  | @run s hs _ p hp ih =>
    have h := kept_settles.run host (kept_settles.runs_execute hb s.room) p hp s
      (hs.orderly hb s.at_present)
    exact h.rel.thread.trans ih

/-- Between runs every copy is what patching made it. -/
theorem Reached.exact
    (hb : ∀ b v this args, (host.body b v this args).Uses fun op => op.IsOrdinary = true)
    (hs : Reached host (fun op => op.IsOrdinary = true) s)
    (hdefine : s.world.PerCall ∨
      ∀ b v this args, (host.body b v this args).Uses fun op => op.KeepsClasses = true) :
    s.world.Exact := by
  rcases hdefine with hmode | hkeeps
  · exact (hs.lasting hb).now.2 hmode
  · have hall : s.world.Sound ∧ s.world.Exact := by
      induction hs with
      | start h => exact ⟨.empty, .empty⟩
      | registry _ rows ih => exact ⟨ih.1.newRegistry rows, ih.2.newRegistry ih.1 rows⟩
      | machine _ options core _ ih =>
        exact ⟨ih.1.newVmAround options core,
          ih.2.newVmAround (fun _ _ _ => rfl) ih.1 options core⟩
      | @run s _ _ p hp ih =>
        exact p.lift_induct (P := fun t => t.world.Sound ∧ t.world.Exact)
          (fun hop hw => exact_op hkeeps s.room hop hw) (fun hw => hw) hp s ih
    exact hall.2

end Reached

end Interception
