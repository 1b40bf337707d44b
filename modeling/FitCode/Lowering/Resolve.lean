import FitCode.Lowering.Loop

/-! # Results of nodes

Asking for a result gives the indexed access of an observable that a loop iterates, else the cached
result, else it lowers the node. A result cached outside a loop over one of the node's observables
holds the whole column: it is set aside until that loop closes. A reducer whose observables are all
iterated by open loops does not depend on their indices and is lowered in front of the outermost
loop.

How a node is lowered is a parameter here, so that the recursion through the graph is tied in one
place.
-/
namespace FitCode

structure Trail where
  /-- The nodes being lowered, outermost first. -/
  nodes : List Identity := []
  /-- How deep calls are nested. -/
  calls : Nat := 0

namespace Trail

def deeper (t : Trail) (calls : Nat) : Trail := { t with calls := t.calls + calls }

def enter (t : Trail) (id : Identity) : Trail := ⟨t.nodes ++ [id], t.calls + 1⟩

end Trail

/-- The two ways in which lowering a node calls back. -/
structure Lowerer where
  resolve : Trail → Datum → Emit String
  emit : Trail → Datum → Emit Unit

namespace Draft

/-- The state seen at top level: no open loop, and only what is bound outside of loops. -/
def atTop (c : Draft) : Draft :=
  { c with
    stack := []
    bindings := ∅
    body := []
    results := c.results.below 1
    arrays := c.arrays.below 1 }

def backTo (c outer : Draft) : Draft :=
  { c with
    stack := outer.stack
    bindings := outer.bindings
    body := outer.body
    results := outer.results
    arrays := outer.arrays }

/-- Takes over what was lowered at top level: its lines in front of the outermost loop, and its new
results and arrays. -/
def adopt (c inner : Draft) : Draft :=
  { c.queueAt 0 inner.body with
    results := c.results.orElse inner.results
    arrays := c.arrays.orElse inner.arrays }

def entered (c : Draft) (id : Identity) : Draft := { c with running := c.running ++ [id] }

def left (c : Draft) : Draft := { c with running := c.running.dropLast }

def setResultAside (c : Draft) (k : Nat) (e : Entry) (depth : Nat) : Draft :=
  match c.stack[depth - 1]? with
  | some h =>
    { c.modifyLoop h fun l => { l with results := l.results.insert k e } with
      results := c.results.erase k }
  | none => c

def setArrayAside (c : Draft) (k : Nat) (e : Entry) (depth : Nat) : Draft :=
  match c.stack[depth - 1]? with
  | some h =>
    { c.modifyLoop h fun l => { l with arrays := l.arrays.insert k e } with
      arrays := c.arrays.erase k }
  | none => c

end Draft

/-- Runs a step at top level. If it fails, nothing but the names it took remains. -/
def atTopLevel (x : Emit Unit) : Emit Unit := do
  let outer ← get
  set outer.atTop
  let outcome ← Emit.attempt x
  let inner ← get
  set (inner.backTo outer)
  Emit.ofExcept outcome
  modify fun c => c.adopt inner

/-- Runs a step while a node counts as being lowered, whether the step fails or not. -/
def whileLowering (id : Identity) (x : Emit Unit) : Emit Unit := do
  modify fun c => c.entered id
  let outcome ← Emit.attempt x
  modify fun c => c.left
  Emit.ofExcept outcome

/-- The labels from the first occurrence of `id` on, closed by `id`. -/
def cycleLabels (running : List Identity) (id : Identity) : List String :=
  (running.dropWhile fun r => !r.same id).map (·.shown) ++ [id.shown]

namespace Setting

def canLower (s : Setting) : Datum → Bool
  | .object v => (s.graph.kind v).isNode
  | _ => false

def lower (s : Setting) (emit : Trail → Datum → Emit Unit) (trail : Trail) (node : Datum)
    (id : Identity) : Emit String := do
  if !s.canLower node then throw (.notLowerable id.shown)
  if trail.nodes.any fun r => r.same id then
    throw (.cyclic id.shown (cycleLabels trail.nodes id))
  let step := whileLowering id (emit (trail.enter id) node)
  if ← Emit.ofExcept (s.isLiftable (← get) node) then atTopLevel step else step
  match (← get).results[id.serial]? with
  | some e => return e.text
  | none => throw (.noRegistration id.shown)

def resolve (s : Setting) (emit : Trail → Datum → Emit Unit) (trail : Trail) (node : Datum) :
    Emit String := do
  if s.options.machine.calls < trail.calls then throw .tooDeep
  let id ← s.identityOf node
  let c ← get
  if let some text := c.bindings[id.serial]? then return text
  match c.results[id.serial]? with
  | none => s.lower emit trail node id
  | some e =>
    let depth ← Emit.ofExcept (s.iterationDepth c node)
    if depth ≤ e.depth then return e.text
    set (c.setResultAside id.serial e depth)
    s.lower emit trail node id

def introduceArray (s : Setting) (id : Identity) (texts : List String) (name : Option String) :
    Emit String := do
  let c ← get
  let (name, c) ← match explicitName name with
    | some name =>
      if c.taken.contains name then throw (.nameTaken name id.shown)
      pure (name, c)
    | none => pure (c.freshArray s.options)
  let init := if texts.isEmpty then "np.empty(0)"
    else "np.array([" ++ String.intercalate ", " texts ++ "])"
  let c := c.introduce s.options name (name ++ " = " ++ init) (c.depthOf init)
  set { c with arrays := c.arrays.insert id.serial ⟨name, c.bindingDepth name⟩ }
  return name

def members (s : Setting) : Datum → Except Fault (List Nat)
  | .object v => ((s.graph.kind v).members?).elim (.error .wrongType) .ok
  | _ => .error .wrongType

def arrayOf (s : Setting) (l : Lowerer) (trail : Trail) (collection : Datum)
    (name : Option String) : Emit String := do
  let id ← s.identityOf collection
  let c ← get
  if let some e := c.arrays[id.serial]? then
    let depth ← Emit.ofExcept (s.iterationDepth c collection)
    if depth ≤ e.depth then return e.text
    set (c.setArrayAside id.serial e depth)
  let ms ← Emit.ofExcept (s.members collection)
  let texts ← ms.mapM fun m => l.resolve (trail.deeper 2) (s.graph.datum m)
  s.introduceArray id texts name

end Setting

end FitCode
