/-
Seeing a world.

Everything here reads a world and gives a part of an answer.  Following what a
trampoline stands for stops after three steps, since overwritten cells can stand
for each other in a circle.
-/
import Interception.Decimal.Shortest
import Interception.Session.Answer
import Interception.Text.Quoted

namespace Interception.World

open Session

variable {β : Type}

/-! ### Values -/

def methodLabel (w : World β) (m : CellRef) : MethodLabel :=
  let d := w.content m
  { owner := d.ownerName, name := d.name, slot := d.slot, armed := d.isTrampoline }

def objectLabel (w : World β) (o : ObjectRef) : ObjectLabel :=
  { cls := w.className (w.classOf o), id := o.objectId }

def shown (w : World β) : Value → Shown
  | .null => .null
  | .bool b => .bool b
  | .int n => .int n
  | .float x => .float x
  | .str s => .str s
  | .object o => .object (w.objectLabel o)
  | .method m => .method (w.methodLabel m)

/-! ### Descriptors -/

def codeText (w : World β) : Code β → String
  | .native _ => "Native"
  | .abstract => "Abstract"
  | .trampoline r => s!"Trampoline(-> {(w.content r).name})"

def descriptorView (w : World β) (d : Descriptor β) : DescriptorView :=
  { name := d.name
    owner := d.owner
    ownerName := d.ownerName
    slot := d.slot
    visibility := d.visibility
    code := w.codeText d.code }

/-- A descriptor and at most `steps` of those it stands for. -/
def descriptorChain (w : World β) : Nat → Descriptor β → DescriptorChain
  | 0, d => [w.descriptorView d]
  | steps + 1, d =>
    w.descriptorView d ::
      match d.replaced? with
      | some r => w.descriptorChain steps (w.content r)
      | none => []

def describe (w : World β) (d : Descriptor β) : DescriptorChain := w.descriptorChain 3 d

/-! ### Classes and machines -/

def nameAndNumber (w : World β) (c : ClassRef) : String × Nat :=
  (w.className c, (w.classes.get c).number)

def slotView (w : World β) (c : ClassRef) (i : Nat) (m : CellRef) : SlotView :=
  let d := w.content m
  { chain := w.describe d
    shared := (w.classes.get c).super?.any fun s => w.methodAt s i == some m
    slotOf := (w.classes.get c).slotOf d.name }

def classView (w : World β) (c : ClassRef) : ClassView :=
  let k := w.classes.get c
  let cells := w.tableOf c
  { id := k.number
    name := k.name
    super? := k.super?.map w.className
    fields := k.fields
    table := cells.mapIdx (w.slotView c)
    count := cells.length
    direct := k.directs.map fun m => w.describe (w.content m)
    loader := k.scope.loader
    allocations := k.scope.allocations
    tables := k.scope.tables.length
    initialized := k.initialized
    lineage := (w.lineage c).map w.className }

def vmView (w : World β) (v : VmRef) : VmView :=
  let k := w.vms.get v
  { classes := k.classes.size
    allocations := k.allocations
    mode := k.core.mode
    optionMode := k.options.mode
    optionRows := k.options.rows.length
    maxDepth := k.options.maxDepth
    root := w.className k.root
    proxy := w.className k.proxy
    proxyOffset := k.proxyOffset }

/-! ### Interception -/

def resolutionView (w : World β) (r : Resolution) : ResolutionView :=
  let now := (w.classes.get r.cls).table
  { cls := w.nameAndNumber r.cls
    handlerClass := w.className r.handlerClass
    offset := r.handlerOffset
    table :=
      if now = r.intercepted then .intercepted
      else if now = r.unpatched then .unpatched
      else .other
    unpatched := (w.tables.get r.unpatched).map w.methodLabel
    intercepted := (w.tables.get r.intercepted).map w.methodLabel }

def entryView (w : World β) (c : ClassRef) (e : Entry) : EntryView :=
  { row := e.row
    resolved := e.isResolved
    resolvedFor := (w.resolvedFor e c).isSome
    trampolines := w.trampolineCount e
    openWindows := e.openWindows
    calls := e.calls
    resolution := e.resolution.map w.resolutionView }

/-! ### Diagnostic texts -/

def visibilityText : Visibility → String
  | .everyone => "Public"
  | .derived => "Protected"
  | .declaring => "Private"

/-- A record with named parts. -/
def recordText (kind : String) (parts : List (String × String)) : String :=
  kind ++ " \x7b " ++ String.intercalate ", " (parts.map fun (k, v) => s!"{k}: {v}") ++ " \x7d"

def valueText (w : World β) : Value → String
  | .null => "null"
  | .bool b => if b then "true" else "false"
  | .int n => toString n.toInt
  | .float x => Decimal.ofFloat x
  | .str s => Text.quoted s
  | .object o => s!"<{(w.objectLabel o).text}>"
  | .method m => s!"<method {(w.content m).name}>"

def objectText (w : World β) (o : ObjectRef) : String :=
  recordText "Object"
    [("id", toString o.objectId), ("class", Text.quoted (w.className (w.classOf o)))]

def classText (w : World β) (c : ClassRef) : String :=
  let k := w.classes.get c
  let super := match k.super? with
    | some s => s!"Some({Text.quoted (w.className s)})"
    | none => "None"
  recordText "Class"
    [("id", toString k.number), ("name", Text.quoted k.name), ("super", super),
      ("fields", toString k.fields.length), ("vtable", toString (w.tableOf c).length)]

def cellText (w : World β) (m : CellRef) : String :=
  let d := w.content m
  recordText "Method"
    [("name", Text.quoted d.name), ("owner", Text.quoted d.ownerName),
      ("slot", toString d.slot), ("code", w.codeText d.code)]

def descriptorText (w : World β) (d : Descriptor β) : String :=
  recordText "MethodDesc"
    [("name", Text.quoted d.name), ("owner", toString d.owner),
      ("owner_name", Text.quoted d.ownerName), ("slot", toString d.slot),
      ("visibility", visibilityText d.visibility), ("code", w.codeText d.code)]

/-- The text of a value, and of what a reference refers to. -/
def debugTexts (w : World β) (v : Value) : List String :=
  w.valueText v ::
    match v with
    | .object o => [w.objectText o, w.classText (w.classOf o)]
    | .method m => [w.cellText m, w.descriptorText (w.content m)]
    | _ => []

end Interception.World
