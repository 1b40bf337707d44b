import FitCode.Lowering.Draft

/-! # Names and the statements that bind them

A fresh name is a stem and the first free number. The statement that binds a name goes to the
innermost loop whose names its expression uses; when it uses none of the innermost ones, it is
queued in front of the outermost loop it does not depend on.
-/
namespace FitCode

def numbered (stem : String) (k : Nat) : String := stem ++ toString k

/-- The first number from `k` on whose name is not taken; at most `steps` are tried. -/
def firstFree (stem : String) (taken : List String) : (steps k : Nat) → Nat
  | 0, k => k
  | steps + 1, k =>
    if taken.contains (numbered stem k) then firstFree stem taken steps (k + 1) else k

namespace Draft

/-- The first free number of a stem. One more try than there are taken names is enough. -/
def freeNumber (c : Draft) (stem : String) (k : Nat) : Nat :=
  firstFree stem c.taken (c.taken.length + 1) k

def freshTemp (c : Draft) (o : Options) : String × Draft :=
  let k := c.freeNumber o.tempStem c.tempCount
  let name := numbered o.tempStem k
  (name, { c with
    tempCount := k + 1
    taken := name :: c.taken
    bindingDepths := (name, c.depth) :: c.bindingDepths })

/-- Takes a fresh array name, which is not bound yet. -/
def freshArray (c : Draft) (o : Options) : String × Draft :=
  let k := c.freeNumber o.arrayStem c.arrayCount
  (numbered o.arrayStem k, { c with arrayCount := k + 1 })

/-- Binds a name by a statement at `depth`, or at the current depth without hoisting. -/
def introduce (c : Draft) (o : Options) (name statement : String) (depth : Nat) : Draft :=
  let depth := if o.hoist then depth else c.depth
  let ls := Line.ofSnippet statement depth
  let c := { c with
    taken := name :: c.taken
    bindingDepths := (name, depth) :: c.bindingDepths }
  if depth = c.depth then { c with body := c.body ++ ls } else c.queueAt depth ls

def bindFresh (c : Draft) (o : Options) (expr : String) : String × Draft :=
  let (name, c) := c.freshTemp o
  (name, c.introduce o name (name ++ " = " ++ expr) (c.depthOf expr))

end Draft

namespace Setting

def identityOf (s : Setting) (d : Datum) : Emit Identity := Emit.ofExcept (s.graph.identityOf d)

def explicitName (name : Option String) : Option String := name.filter (· != "")

def bindTemp (s : Setting) (node : Datum) (expr : String) (name : Option String) :
    Emit String := do
  let c ← get
  match explicitName name with
  | some name =>
    if c.taken.contains name then
      throw (.nameTaken name (← s.identityOf node).shown)
    set (c.introduce s.options name (name ++ " = " ++ expr) (c.depthOf expr))
    return name
  | none =>
    let (name, c) := c.bindFresh s.options expr
    set c
    return name

/-- Registers the result of a node, which must not have one. -/
def register (s : Setting) (node : Datum) (expr : String) (save : Bool) : Emit String := do
  let id ← s.identityOf node
  if let some e := (← get).results[id.serial]? then throw (.resultTaken e.text id.shown)
  let text ← if save then s.bindTemp node expr none else pure expr
  modify fun c => { c with results := c.results.insert id.serial ⟨text, c.depthOf text⟩ }
  return text

def freshTemp (s : Setting) : Emit String := modifyGet fun c => c.freshTemp s.options

end Setting

end FitCode
