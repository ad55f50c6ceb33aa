/-
What statements do.

The machine comes first.  Operands are evaluated in the order in which an action
lists them, and each is checked to be an object or a handle where one is needed
before the next is evaluated.  A stand-alone core is looked up after them, and only if
the action comes to use it.  The answer is formed after the action has had its effect.
-/
import Interception.Access
import Interception.Session.Bench

namespace Interception.Session

/-- The answer of an action, and its value if it has one that can be stored. -/
structure Outcome where
  answer : Answer
  value : Option Value := none

namespace Script

/-- The outcome that shows a value. -/
def value (v : Value) : Script Outcome := do
  let shown ← see fun w => w.shown v
  return { answer := .value shown, value := some v }

/-- The outcome that shows an optional reference. -/
def optional {α : Type} (wrap : α → Value) (a : Option α) : Script Outcome :=
  value ((a.map wrap).getD .null)

/-- The core an action uses. -/
def core (notes : Notes) (v : VmRef) : Script Core :=
  look fun w b _ =>
    match notes.core with
    | none => .ok (w.coreOf v)
    | some name =>
      match b.cores.lookup name with
      | some core => .ok core
      | none => .error (.typeError "no such core")

/-- What the nearest entry of a class in the action's core settled. -/
def resolution (notes : Notes) (v : VmRef) (c : ClassRef) : Script (Option Resolution) := do
  let core ← core notes v
  see fun w => (w.nearestEntry core.registry c).bind fun i => (w.entry core.registry i).resolution

/-- The cells of one of a class's tables; there are none where no entry is resolved. -/
def cells (notes : Notes) (v : VmRef) (c : ClassRef) : TableKind → Script (List CellRef)
  | .current => see fun w => w.tableOf c
  | .unpatched => do
    let r ← resolution notes v c
    see fun w => (r.map fun (r : Resolution) => w.tables.get r.unpatched).getD []
  | .intercepted => do
    let r ← resolution notes v c
    see fun w => (r.map fun (r : Resolution) => w.tables.get r.intercepted).getD []

/-- The cell in a position, if there is one; no table is looked for under a name that has
no slot. -/
def cellAt (notes : Notes) (v : VmRef) (c : ClassRef) (position : CellPosition)
    (table : TableKind) : Script (Option CellRef) := do
  let index ← match position with
    | .named name => see fun w => (w.classes.get c).slotOf name
    | .slot n => pure (some n)
  match index with
  | none => return none
  | some i => return (← cells notes v c table)[i]?

/-- Keep a guard under a name; one kept there before is closed after this one opened. -/
def keepGuard (name : String) (g : Guard Body) : Script Unit := do
  let old ← look fun _ b _ => .ok (b.guards.lookup name)
  edit fun b => { b with guards := b.guards.put name g }
  if let some g := old then
    let () ← ask (.closeWindow g)

/-- Close the guard kept under a name. -/
def closeGuard (name : String) : Script Unit := do
  let g ← look fun _ b _ =>
    match b.guards.lookup name with
    | some g => .ok g
    | none => .error (.typeError "no such guard")
  edit fun b => { b with guards := b.guards.drop name }
  let () ← ask (.closeWindow g)

/-- Serve a request on a free-standing scope; the first request under a name sets its
loader. -/
def serveScope (id loader : String) (methods : List Expr) (table : Bool) :
    Script ScopeView := do
  let handles ← methods.mapM method
  let start ← look fun _ b _ =>
    .ok ((b.scopes.lookup id).getD { loader })
  let cells ← handles.mapM fun m => do
    let d ← see fun w => w.content m
    ask (.newCell d)
  let scope := start.afterCells cells.length
  let scope ←
    if table then do
      let t ← ask (.newTable cells)
      pure (scope.afterTable t)
    else pure scope
  edit fun b => { b with scopes := b.scopes.put id scope }
  see fun w =>
    { loader := scope.loader
      allocations := scope.allocations
      tables := scope.tables.length
      table := if table then some (cells.map w.methodLabel) else none }

/-- Serve a request on a free-standing class registry. -/
def serveRegistry (v : VmRef) (id : String) (register : Option ClassTerm) (ids : List Nat)
    (names : List String) : Script ClassRegistryView := do
  let c ← register.mapM (cls v)
  let before ← look fun _ b _ => .ok ((b.classRegistries.lookup id).getD {})
  let registry ← see fun w =>
    match c with
    | some c => before.register (w.className c) (w.classes.get c).number c
    | none => before
  edit fun b => { b with classRegistries := b.classRegistries.put id registry }
  see fun w =>
    { registered := c.map fun c => (w.classes.get c).number
      size := registry.size
      next := registry.next
      ids := ids.map fun n => (registry.byNumber? n).map w.className
      names := names.map fun n => (registry.contains n, (registry.byName? n).map w.nameAndNumber) }

/-- The registry a stand-alone core works on. -/
def makeCore : CoreSource → Script Core
  | .rows mode rows => do
    let registry ← ask (.newRegistry rows)
    return ⟨registry, mode⟩
  | .registryOf mode i => do
    let v ← vmAt i
    see fun w => ⟨(w.coreOf v).registry, mode⟩

/-- Carry out an action on machine `v`. -/
def perform (notes : Notes) (v : VmRef) : Action Body → Script Outcome
  | .define d => do
    let c ← ask (.define v d)
    see fun w =>
      { answer := .defined (w.classes.get c).number (w.tableOf c).length
          (w.classes.get c).fields.length }
  | .alloc c => do
    let c ← cls v c
    let o ← ask (.allocate v c)
    value (.object o)
  | .call on name as => do
    let o ← object on
    let xs ← args as
    value (← ask (.callVirtual v o name xs))
  | .slot on slot as => do
    let o ← object on
    let xs ← args as
    value (← ask (.callSlot v o slot xs))
  | .direct on name as => do
    let o ← object on
    let xs ← args as
    value (← ask (.callDirect v o name xs))
  | .reflect m on as caller => do
    let m ← method m
    let o ← object on
    let xs ← args as
    let caller ← caller.mapM (cls v)
    value (← ask (.callMethod v caller m o xs))
  | .exec m on as => do
    let m ← method m
    let o ← object on
    let xs ← args as
    value (← ask (.execute v m o xs))
  | .access m caller => do
    let m ← method m
    let caller ← caller.mapM (cls v)
    look fun w _ _ => (w.checkAccess v caller (w.content m)).map fun () => { answer := .allowed }
  | .byId id => see fun w =>
    { answer := .name (((w.vms.get v).classes.byNumber? id).map w.className) }
  | .find name => see fun w =>
    { answer := .foundClass ((w.findClass v name).map w.nameAndNumber) }
  | .vm => see fun w => { answer := .vm (w.vmView v) }
  | .cls c => do
    let c ← cls v c
    see fun w => { answer := .cls (w.classView c) }
  | .subclass c id => do
    let c ← cls v c
    see fun w => { answer := .flag (w.derivesFrom c id) }
  | .slotOf c name => do
    let c ← cls v c
    see fun w => { answer := .number ((w.classes.get c).slotOf name) }
  | .offset c name type => do
    let c ← cls v c
    see fun w => { answer := .number ((w.classes.get c).fieldOffset name type) }
  | .method c position table => do
    let c ← cls v c
    optional .method (← cellAt notes v c position table)
  | .directMethod c index => do
    let c ← cls v c
    optional .method (← see fun w => (w.classes.get c).directs[index]?)
  | .origin m => do
    let m ← method m
    optional .method (← see fun w => (w.content m).replaced?)
  | .desc m => do
    let m ← method m
    see fun w => { answer := .descriptor (w.describe (w.content m)) }
  | .cell m => do
    let m ← method m
    see fun w =>
      let d := w.content m
      { answer := .cell d.name d.slot d.owner d.isTrampoline }
  | .overwrite m other => do
    let m ← method m
    let other ← method other
    let d ← see fun w => w.content other
    let old ← ask (.overwrite m d)
    see fun w => { answer := .descriptor (w.describe old) }
  | .clone m => do
    let m ← method m
    let d ← see fun w => w.content m
    value (.method (← ask (.newCell d)))
  | .install c source => do
    let c ← cls v c
    let table ← match source with
      | .ofClass other => do
        let other ← cls v other
        see fun w => (w.classes.get other).table
      | .handles methods => do
        let cells ← methods.mapM method
        ask (.newTable cells)
    let old ← ask (.install c table)
    see fun w => { answer := .installed ((w.tables.get old).map w.methodLabel) }
  | .get on index => do
    let o ← object on
    see fun w => { answer := .field ((w.field? o index).map w.shown) }
  | .set on index e => do
    let o ← object on
    let x ← eval e
    let () ← ask (.setField o index x)
    see fun w => { answer := .number (some (w.objects.get o).fields.length) }
  | .object on => do
    let o ← object on
    see fun w =>
      { answer := .object (w.objectLabel o) ((w.objects.get o).fields.map w.shown) }
  | .letValue e => do value (← eval e)
  | .log e => do
    let x ← eval e
    let shown ← see fun w => w.shown x
    edit fun b => b.push (.value shown)
    return { answer := .nothing }
  | .count name => do
    edit fun b => { b with counters := b.counters.put name (b.counter name + 1) }
    let n ← look fun _ b _ => .ok (b.counter name)
    value (.int n)
  | .eq a b => do
    let x ← eval a
    let y ← eval b
    return { answer := .flag (x.same y) }
  | .asValue e => do
    let x ← eval e
    let readings : Readings :=
      { null := x.isNull, int := x.asInt?, str := x.asStr?
        object := x.asObject?.isSome, method := x.asMethod?.isSome }
    return { answer := .readings readings }
  | .debug e => do
    let x ← eval e
    see fun w => { answer := .texts (w.debugTexts x) }
  | .fail e => throw e
  | .panic text => panic text
  | .core id source => do
    let core ← makeCore source
    edit fun b => { b with cores := b.cores.put id core }
    see fun w => { answer := .core core.mode (w.registries.get core.registry).entries.size }
  | .patch c => do
    let c ← cls v c
    let core ← core notes v
    return { answer := .patched (← ask (.patch v core c)) }
  | .bind on => do
    let o ← object on
    let core ← core notes v
    optional .object (← ask (.bind v core o))
  | .handler on => do
    let o ← object on
    let core ← core notes v
    optional .object (← see fun w => w.handlerOf v core o)
  | .gate c => do
    let c ← cls v c
    let core ← core notes v
    see fun w => { answer := .flag (w.isHandlerClass core c) }
  | .trampoline m on as => do
    let m ← method m
    let o ← object on
    let xs ← args as
    let core ← core notes v
    value (← ask (.callTrampoline v core m o xs))
  | .enter on m guard => do
    let o ← object on
    let m ← method m
    let core ← core notes v
    let g ← ask (.openWindow v core o m)
    keepGuard guard g
    return { answer := .entered g.isPassthrough }
  | .leave guard => do
    closeGuard guard
    return { answer := .left }
  | .entry c recursive => do
    let c ← cls v c
    let core ← core notes v
    see fun w =>
      let i := if recursive then w.nearestEntry core.registry c else w.ownEntry core.registry c
      { answer := .entry (i.map fun i => w.entryView c (w.entry core.registry i)) }
  | .stats => do
    let core ← core notes v
    see fun w => { answer := .stats (w.stats core) }
  | .registry names => do
    let core ← core notes v
    see fun w =>
      let g := w.registries.get core.registry
      { answer := .registry g.rows (names.map fun ns => ns.map g.isHandlerClass) }
  | .intercepts rows name => return { answer := .flags (rows.map (·.intercepts name)) }
  | .classRegistry id register ids names => do
    return { answer := .classRegistry (← serveRegistry v id register ids names) }
  | .scope id loader methods table => do
    return { answer := .scope (← serveScope id loader methods table) }
  | .unknown word => throw (.typeError s!"unknown statement {word}")

/-- Carry out an action on the machine its notes name, and store its value. -/
def act (notes : Notes) (action : Action Body) : Script Answer := do
  let v ← match notes.vm with
    | some i => vmAt i
    | none => look fun _ _ f => .ok f.vm
  let outcome ← perform notes v action
  match notes.saveAs, outcome.value with
  | some name, some x => assign name x
  | _, _ => pure ()
  return outcome.answer

end Script

end Interception.Session
